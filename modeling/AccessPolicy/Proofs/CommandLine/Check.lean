import AccessPolicy.Proofs.Audit
import AccessPolicy.Proofs.CommandLine.Configured
import AccessPolicy.Proofs.Text.Decimal

/-!
# Checking a directory and loading it agree

A run that is to check a directory passes over what is wrong there.  Its exit code yet stands for what comes of a load
that passes over nothing (`code_check`), and its summary accounts for every file that a walk comes to and for every
directory that it cannot list (`run_check`), though not for every file that is there (`not_tellsOfEach_buried`).
-/

namespace AccessPolicy.CommandLine

open FileTree Registry

/-! ### The exit code -/

/-- The exit code that stands for what comes of a load that passes over nothing. -/
def exitCode (strict : Bool) : Except RegistryError (LoadReport × Registry) → UInt8
  | .ok (report, _) => if strict = true → report.registered.Nodup then 0 else 1
  | .error (.load (.directory _ _)) => 2
  | .error (.load (.files _)) => 1
  | .error (.condition _) => 1

section

variable (strict : Bool) (result : Except RegistryError (LoadReport × Registry))

theorem exitCode_eq_zero : exitCode strict result = 0 ↔
    ∃ report registry, result = .ok (report, registry) ∧ (strict = true → report.registered.Nodup) := by
  rcases result with (_ | _ | _) | ⟨report, registry⟩
  case ok =>
    by_cases h : strict = true → report.registered.Nodup
    · rw [exitCode, if_pos h]
      exact iff_of_true rfl ⟨report, registry, rfl, h⟩
    · rw [exitCode, if_neg h]
      refine iff_of_false nofun ?_
      rintro ⟨_, _, ⟨⟩, hnodup⟩
      exact h hnodup
  all_goals simp [exitCode]

theorem exitCode_eq_one : exitCode strict result = 1 ↔
    (∃ failures, result = .error (.load (.files failures))) ∨ (∃ cause, result = .error (.condition cause)) ∨
      strict = true ∧ ∃ report registry, result = .ok (report, registry) ∧ ¬ report.registered.Nodup := by
  rcases result with (_ | _ | _) | ⟨report, registry⟩
  case ok =>
    by_cases h : strict = true → report.registered.Nodup
    · rw [exitCode, if_pos h]
      refine iff_of_false nofun ?_
      rintro (⟨_, ⟨⟩⟩ | ⟨_, ⟨⟩⟩ | ⟨hstrict, _, _, ⟨⟩, hrepeats⟩)
      exact hrepeats (h hstrict)
    · rw [exitCode, if_neg h]
      obtain ⟨hstrict, hrepeats⟩ := Classical.not_imp.1 h
      exact iff_of_true rfl (.inr (.inr ⟨hstrict, report, registry, rfl, hrepeats⟩))
  all_goals simp [exitCode]

theorem exitCode_eq_two : exitCode strict result = 2 ↔
    ∃ path cause, result = .error (.load (.directory path cause)) := by
  rcases result with (_ | _ | _) | ⟨report, registry⟩
  case ok =>
    refine iff_of_false ?_ nofun
    rw [exitCode]
    split <;> decide
  all_goals simp [exitCode]

end

/-! ### The summary -/

/-- The numbers of an audit, in a line. -/
def tally (directory : String) (a : Audit) : String :=
  toString a.registered.length ++ " policies on " ++ toString a.routes ++ " routes in " ++ directory

/-- The outcome shows the audit of a directory, after some warnings: as one value with five fields, or line by line, and
then a line with the numbers stands where the code says. -/
def Shows (directory : String) (a : Audit) (warnings : List String) (o : Outcome) : Format → Prop
  | .json =>
    o.output = [(Json.object
      [("valid", .bool (o.code = 0)),
        ("policies", .array (a.registered.map .string)),
        ("duplicates", .array (a.duplicates.map .string)),
        ("failures", .array (a.failures.map fun (path, error) =>
          .object [("path", .string path), ("error", .string error)])),
        ("routes", .number (.integer a.routes))]).pretty] ∧
    o.errors = warnings
  | .text =>
    o.output = (if o.code = 0 then ["✓ " ++ tally directory a] else []) ∧
    o.errors = warnings ++ a.failures.map (fun (path, error) => "✗ " ++ path ++ ": " ++ error) ++
      a.duplicates.map ("! Duplicate policy ID: " ++ ·) ++
      if o.code = 0 then [] else ["✗ " ++ tally directory a ++ "; " ++ toString a.failures.length ++ " failed"]

theorem auditLines_of_passes {a : Audit} {strict : Bool} (settings : Settings) (h : a.passes strict = true) :
    auditLines settings strict a =
      { output := ["✓ " ++ tally settings.directory a]
        errors := a.failures.map (fun (path, error) => "✗ " ++ path ++ ": " ++ error) ++
          a.duplicates.map ("! Duplicate policy ID: " ++ ·) } := by
  simp only [auditLines, h, if_true, tally, successLine, errorLine, warningLine, Text.renderInt_natCast,
    String.append_assoc]
  rfl

theorem auditLines_of_fails {a : Audit} {strict : Bool} (settings : Settings) (h : a.passes strict = false) :
    auditLines settings strict a =
      { code := 1
        errors := a.failures.map (fun (path, error) => "✗ " ++ path ++ ": " ++ error) ++
          a.duplicates.map ("! Duplicate policy ID: " ++ ·) ++
            ["✗ " ++ tally settings.directory a ++ "; " ++ toString a.failures.length ++ " failed"] } := by
  simp only [auditLines, h, Bool.false_eq_true, if_false, tally, errorLine, warningLine, Text.renderInt_natCast,
    String.append_assoc]
  rfl

section

variable [Regex.Engine]

/-! ### Checking a directory -/

variable {settings : Settings} {found : Found}

theorem check_of_error {e : RegistryError} (h : Audit.ofLoaded (settings.load found) = .error e) (strict : Bool)
    (format : Format) : check settings strict format found = .failed (.audit e) := by
  rw [check, h]

theorem code_check_of_ok {a : Audit} (h : Audit.ofLoaded (settings.load found) = .ok a) (strict : Bool)
    (format : Format) : (check settings strict format found).code = if a.passes strict then 0 else 1 := by
  rw [check, h]
  cases format with
  | text =>
    simp only [auditLines]
    split <;> rfl
  | json => rfl

theorem code_check (options : RegistryOptions) (strict : Bool) (format : Format) :
    (check settings strict format found).code = exitCode strict (Audit.loadWhole options (settings.load found)) := by
  rcases Audit.ofLoaded_cases options (settings.load found) with
    ⟨cause, hfound, haudit, hload⟩ | ⟨a, haudit, ⟨report, registry, hload, hfailures, hregistered⟩ | ⟨hfailures, hload⟩⟩
  · obtain ⟨reason, rfl⟩ := directory_of_loadFrom hfound
    rw [check_of_error haudit, hload]
    rfl
  · have hpasses : a.passes strict = true ↔ (strict = true → report.registered.Nodup) := by
      rw [Audit.passes_iff, hregistered, and_iff_right hfailures]
    rw [code_check_of_ok haudit, hload, exitCode]
    simp only [hpasses]
  · have hfails : ¬ a.passes strict = true := fun h => hfailures ((a.passes_iff strict).1 h).1
    rw [code_check_of_ok haudit, if_neg hfails]
    rcases hload with ⟨failures, hload⟩ | ⟨cause, hload⟩
    · rw [hload, exitCode]
    · rw [hload, exitCode]

theorem shows_check {a : Audit} (h : Audit.ofLoaded (settings.load found) = .ok a) (strict : Bool) (format : Format)
    (warnings : List String) :
    Shows settings.directory a warnings ((check settings strict format found).warned warnings) format := by
  rw [check, h]
  cases hpasses : a.passes strict with
  | true =>
    cases format with
    | json =>
      simp [Shows, Outcome.warned, Outcome.ofJson, Audit.toJson, Json.ofStrings, Json.ofNat, Json.ofInt, hpasses]
    | text => simp [Shows, Outcome.warned, auditLines_of_passes settings hpasses]
  | false =>
    cases format with
    | json =>
      simp [Shows, Outcome.warned, Outcome.ofJson, Audit.toJson, Json.ofStrings, Json.ofNat, Json.ofInt, hpasses]
    | text => simp [Shows, Outcome.warned, auditLines_of_fails settings hpasses]

/-! ### Checking and loading -/

/-- What a run that checks a directory comes to, and what a load of the directory that passes over nothing. -/
structure AgreesWithLoad (options : RegistryOptions) (system : FileSystem) (settings : Settings) (strict : Bool)
    (format : Format) (warnings : List String) (o : Outcome) : Prop where
  /-- The check is passed if the load goes through and, for a strict one, no id stands for two policies. -/
  passed : o.code = 0 ↔ ∃ report registry,
    Audit.loadWhole options (system.loadAll settings.directory settings.suffix) = .ok (report, registry) ∧
      (strict = true → report.registered.Nodup)
  /-- It is not passed if files or a condition refuse the load. -/
  failed : o.code = 1 ↔
    (∃ failures, Audit.loadWhole options (system.loadAll settings.directory settings.suffix) =
      .error (.load (.files failures))) ∨
    (∃ cause, Audit.loadWhole options (system.loadAll settings.directory settings.suffix) = .error (.condition cause)) ∨
    strict = true ∧ ∃ report registry,
      Audit.loadWhole options (system.loadAll settings.directory settings.suffix) = .ok (report, registry) ∧
        ¬ report.registered.Nodup
  /-- It is stopped if there is no directory to load. -/
  stopped : o.code = 2 ↔ ∃ path cause,
    Audit.loadWhole options (system.loadAll settings.directory settings.suffix) = .error (.load (.directory path cause))
  /-- The summary tells of all files below the directory that have the suffix, and of all directories there that cannot
  be listed, in the order of their names. -/
  summary : ∀ entries, system.find settings.directory = .ok (.directory entries) → ∃ a files,
    Shows settings.directory a warnings o format ∧ a.Covers settings.directory files ∧
      (∀ f, f ∈ files ↔ (∃ entry ∈ entries, Leads entry.1 entry.2 f) ∧ f.Selected settings.suffix) ∧
      (files.map (·.names)).Pairwise (· < ·)
  /-- If the directory itself cannot be listed, this is all that the summary tells. -/
  unlisted : ∀ cause, system.find settings.directory = .ok (.closed cause) →
    Shows settings.directory
      { registered := []
        failures := [(settings.directory,
          "read failed: IO error for operation on " ++ settings.directory ++ ": " ++ cause.message)]
        routes := 0 } warnings o format

/-- Whatever its settings say of bad policies, a run that checks a directory ends as a load that passes over nothing
does, and tells of every file there. -/
theorem run_check {system : FileSystem} {input : String} {vars : Variables} {args : List String}
    {invocation : Invocation} {settings : Settings} {strict : Bool} (options : RegistryOptions)
    (h : Configured (Host.ofSystem system input) vars args invocation settings)
    (hcommand : invocation.command = .check strict) (hsystem : system.root.Ordered) :
    AgreesWithLoad options system settings strict invocation.format
      (withVariableFile (Host.ofSystem system input) vars).2 (run (Host.ofSystem system input) vars args) := by
  have hrun : run (Host.ofSystem system input) vars args =
      (check settings strict invocation.format (system.find settings.directory)).warned
        (withVariableFile (Host.ofSystem system input) vars).2 := by
    rw [run_eq h, runCommand, hcommand]
    rfl
  rw [hrun]
  have hcode : ((check settings strict invocation.format (system.find settings.directory)).warned
      (withVariableFile (Host.ofSystem system input) vars).2).code =
        exitCode strict (Audit.loadWhole options (system.loadAll settings.directory settings.suffix)) :=
    code_check options strict invocation.format
  constructor
  · rw [hcode, exitCode_eq_zero]
  · rw [hcode, exitCode_eq_one]
  · rw [hcode, exitCode_eq_two]
  · intro entries hentries
    obtain ⟨a, haudit, hcovers⟩ := Audit.covers_ofLoaded settings.directory settings.suffix entries
    rw [← hentries] at haudit
    exact ⟨a, _, shows_check haudit strict invocation.format _, hcovers, fun f => mem_selected,
      pairwise_selected (FileSystem.ordered_of_find hentries hsystem)⟩
  · intro cause hclosed
    have haudit := Audit.ofLoaded_closed settings.directory settings.suffix cause
    rw [← hclosed] at haudit
    exact shows_check haudit strict invocation.format _

end

/-- Two files with policies of one id. -/
def twins : List (FileName × FileTree) :=
  [("a.policy", .file "<policy></policy>".toUTF8), ("b", .directory [("a.policy", .file "<policy></policy>".toUTF8)])]

/-- The directory with the two files. -/
def house : FileSystem where
  root := .directory [("policies", .directory twins)]

/-- A directory with a policy and a directory that cannot be listed. -/
def hall : FileSystem where
  root := .directory [("d", .directory
    [("a.policy", .file "<policy><manifest><id>home</id></manifest><paths><path>/</path></paths></policy>".toUTF8),
      ("e", .closed .permissionDenied)])]

theorem ordered_house : house.root.Ordered := by
  simp +decide [house, twins]

theorem ordered_hall : hall.root.Ordered := by
  simp +decide [hall]

theorem noFiles_house : withVariableFile (Host.ofSystem house "") [] = ([], []) ∧
    (Host.ofSystem house "").holds defaultFile = false :=
  ⟨by cbv, (holds_defaultFile house "").trans (by cbv)⟩

theorem noFiles_hall : withVariableFile (Host.ofSystem hall "") [] = ([], []) ∧
    (Host.ofSystem hall "").holds defaultFile = false :=
  ⟨by cbv, (holds_defaultFile hall "").trans (by cbv)⟩

theorem configured_house :
    Configured (Host.ofSystem house "") [] ["check", "--strict"] { command := .check true } {} := by
  have hstrict : Argument.ofText .check "--strict" = .switch .strict none := by cbv
  have hscan : scan .check {} ["--strict"] = .ok ({ values := [(.strict, "")] }, []) := by
    rw [scan, hstrict]
    cbv
  have hdirectory : (none : Option String) ≠ some "" := by decide
  exact configured_check noFiles_house.1 noFiles_house.2 hscan rfl hdirectory rfl rfl

theorem configured_hall :
    Configured (Host.ofSystem hall "") [] ["check", "--format", "json", "--policy-dir", "/d"]
      { command := .check false, directory := some "/d", format := .json } { directory := "/d" } := by
  have hformat : Argument.ofText .check "--format" = .switch .format none := by cbv
  have hscan : scan .check {} ["--format", "json", "--policy-dir", "/d"] =
      .ok ({ values := [(.format, "json"), (.policyDir, "/d")] }, []) := by
    rw [scan, hformat]
    cbv
  have hdirectory : some "/d" ≠ some "" := by decide
  exact configured_check noFiles_hall.1 noFiles_hall.2 hscan rfl hdirectory rfl rfl

theorem run_house : run (Host.ofSystem house "") [] ["check", "--strict"] =
    { code := 1, errors := ["! Duplicate policy ID: ", "✗ 2 policies on 0 routes in policies; 0 failed"] } := by
  have hfound : house.find "policies" = .ok (.directory twins) := by
    rw [FileSystem.find, house.node_name (by cbv) (by decide) (by decide) (by cbv) (by decide)]
    cbv
  have haudit : Audit.ofLoaded (Settings.load {} (house.find "policies")) =
      .ok { registered := ["", ""], failures := [], routes := 0 } := by
    rw [hfound]
    cbv
  rw [run_eq configured_house, noFiles_house.1]
  show (check _ _ _ (house.find "policies")).warned [] = _
  rw [check, haudit]
  cbv

/-- What an audit tells of the directory with the policy. -/
def hallAudit : Audit where
  registered := ["home"]
  failures := [("/d/e", "read failed: IO error for operation on /d/e: Permission denied (os error 13)")]
  routes := 1

/-- The same as a text. -/
def hallSummary : String := "\x7b
  \"valid\": false,
  \"policies\": [
    \"home\"
  ],
  \"duplicates\": [],
  \"failures\": [
    \x7b
      \"path\": \"/d/e\",
      \"error\": \"read failed: IO error for operation on /d/e: Permission denied (os error 13)\"
    \x7d
  ],
  \"routes\": 1
\x7d"

set_option maxRecDepth 4000 in
theorem ofLoaded_hall : Audit.ofLoaded (hall.loadAll "/d" ".policy") = .ok hallAudit := by
  have hfound : hall.loadAll "/d" ".policy" =
      .ok { policies := [("/d/a.policy", home)]
            failures := [⟨"/d/e", .read (.listing "/d/e" .permissionDenied)⟩] } := by cbv
  have hcompile : compileAll [("/d/a.policy", home)] = ([⟨home, .all⟩], []) := by cbv
  have hmessage : (FileError.read (.listing "/d/e" .permissionDenied)).message =
      "read failed: IO error for operation on /d/e: Permission denied (os error 13)" := by decide +kernel
  rw [hfound, Audit.ofLoaded_ok]
  simp only [hcompile, List.map_cons, List.map_nil, hmessage]
  rfl

theorem pretty_hallAudit : (hallAudit.toJson false).pretty = hallSummary := by decide +kernel

theorem run_hall : run (Host.ofSystem hall "") [] ["check", "--format", "json", "--policy-dir", "/d"] =
    { code := 1, output := [hallSummary] } := by
  rw [run_eq configured_hall, noFiles_hall.1]
  show (check { directory := "/d" } false .json (hall.find "/d")).warned [] = _
  have haudit : Audit.ofLoaded (Settings.load { directory := "/d" } (hall.find "/d")) = .ok hallAudit :=
    ofLoaded_hall
  rw [check, haudit, ← pretty_hallAudit]
  rfl

/-- A strict check of the twins, line by line, and a check of a directory at an absolute path, as one value. -/
theorem run_check_house :
    (Configured (Host.ofSystem house "") [] ["check", "--strict"] { command := .check true } {} ∧ house.root.Ordered ∧
      AgreesWithLoad {} house {} true .text [] (run (Host.ofSystem house "") [] ["check", "--strict"]) ∧
      run (Host.ofSystem house "") [] ["check", "--strict"] =
        { code := 1, errors := ["! Duplicate policy ID: ", "✗ 2 policies on 0 routes in policies; 0 failed"] }) ∧
    Configured (Host.ofSystem hall "") [] ["check", "--format", "json", "--policy-dir", "/d"]
      { command := .check false, directory := some "/d", format := .json } { directory := "/d" } ∧ hall.root.Ordered ∧
    AgreesWithLoad {} hall { directory := "/d" } false .json []
      (run (Host.ofSystem hall "") [] ["check", "--format", "json", "--policy-dir", "/d"]) ∧
    run (Host.ofSystem hall "") [] ["check", "--format", "json", "--policy-dir", "/d"] =
      { code := 1, output := [hallSummary] } := by
  have hhouse := run_check {} configured_house rfl ordered_house
  have hhall := run_check {} configured_hall rfl ordered_hall
  rw [noFiles_house.1] at hhouse
  rw [noFiles_hall.1] at hhall
  exact ⟨⟨configured_house, ordered_house, hhouse, run_house⟩, configured_hall, ordered_hall, hhall, run_hall⟩

/-! ### A directory on a way that is too long

Not every file below a directory is told of: what is below a directory that cannot be listed is not, and the directory
is told of in its stead.  No rights are needed to see it, a long way to the directory is enough.
-/

/-- Two policies in a directory. -/
def chamber : List (FileName × FileTree) :=
  [("sub", .directory [("a.policy", .file "<policy></policy>".toUTF8), ("b.policy", .file "<policy></policy>".toUTF8)])]

def buried : FileTree := .directory [("d", .directory chamber)]

theorem ordered_buried : buried.system.root.Ordered := by
  simp +decide [FileTree.system, buried, chamber]

/-- A path to the directory above, with slashes behind it. -/
def slashed (n : Nat) : String := String.ofList ('d' :: List.replicate n '/')

/-- So many slashes leave too little room for the names of the entries. -/
def deep : String := slashed 4092

theorem toList_slashed (n : Nat) : (slashed n).toList = 'd' :: List.replicate n '/' := String.toList_ofList

theorem size_slashed (n : Nat) : (slashed n).utf8ByteSize = n + 1 := by
  rw [slashed, String.utf8ByteSize_ofList, String.utf8Len_cons]
  induction n with
  | zero => rfl
  | succ n ih =>
    have hslash : Char.utf8Size '/' = 1 := rfl
    rw [List.replicate_succ, String.utf8Len_cons, hslash]
    omega

theorem endsWith_slashed (n : Nat) : (slashed (n + 1)).endsWith "/" = true := by
  refine String.Slice.endsWith_string_iff.2 ⟨'d' :: List.replicate n '/', ?_⟩
  rw [String.copy_toSlice, toList_slashed, List.replicate_succ']
  rfl

theorem splitText_slashed (n : Nat) : Text.splitText '/' (slashed n) = "d" :: List.replicate n "" := by
  have hslashes : ∀ n, Text.splitEach '/' (List.replicate n '/') = List.replicate (n + 1) [] := by
    intro n
    induction n with
    | zero => rfl
    | succ n ih => rw [List.replicate_succ, Text.splitEach, if_pos rfl, ih, ← List.replicate_succ]
  rw [Text.splitText, toList_slashed, Text.splitEach, if_neg (by decide), hslashes, List.replicate_succ]
  simp only [List.map_cons, List.map_replicate]

/-- A slash more does not lead on. -/
theorem follow_slashes (links : Nat) (ancestors : List FileTree) (entries : List (FileName × FileTree)) (n : Nat) :
    follow links ancestors (.directory entries) (List.replicate n "") = .ok (.directory entries) := by
  induction n with
  | zero => rw [List.replicate_zero, follow]
  | succ n ih =>
    rw [List.replicate_succ, follow.eq_def]
    exact (if_pos (.inl rfl)).trans ih

theorem node_slashed {n : Nat} (h : n < maxPath) : buried.system.node (slashed n) = .ok (.directory chamber) := by
  have hzero : (slashed n).contains '\x00' = false := by
    rw [String.contains_char_eq, toList_slashed]
    simp
  have hne : slashed n ≠ "" := by
    intro he
    have hlist := congrArg String.toList he
    rw [toList_slashed] at hlist
    exact absurd hlist (List.cons_ne_nil _ _)
  have hsize : ¬ maxPath < (slashed n).utf8ByteSize := by
    rw [size_slashed]
    omega
  have hrelative : isAbsolute (slashed n) = false := by
    rw [isAbsolute, toList_slashed]
    rfl
  rw [FileSystem.node, hzero, if_neg Bool.false_ne_true, if_neg hne, if_neg hsize, hrelative, splitText_slashed]
  show follow maxLinks [] (.directory [("work", buried)]) ("work" :: "d" :: List.replicate n "") = _
  simp [follow, buried, List.lookup, follow_slashes]

theorem find_deep : buried.system.find deep = .ok (.directory [("sub", .closed .nameTooLong)]) := by
  have hsize : sizeBefore deep = 4093 := by rw [sizeBefore, deep, endsWith_slashed, if_pos rfl, size_slashed]
  rw [FileSystem.find, hsize, deep, node_slashed (by decide)]
  show Except.ok (seen 4093 (.directory chamber)) = _
  rw [seen, chamber, seenEntries, seenEntries, if_neg (by decide)]
  rfl

theorem listing_message (path : String) :
    (FileError.read (.listing path .nameTooLong)).message =
      "read failed: IO error for operation on " ++ path ++ ": File name too long (os error 36)" := by
  have hassoc (a b c d : String) : a ++ (b ++ path ++ c ++ d) = (a ++ b) ++ path ++ (c ++ d) := by
    simp only [String.append_assoc]
  have hfirst : "read failed: " ++ "IO error for operation on " = "read failed: IO error for operation on " := by
    decide +kernel
  have hlast : ": " ++ OsError.nameTooLong.message = ": File name too long (os error 36)" := by decide +kernel
  exact (hassoc _ _ _ _).trans (congrArg₂ (fun a b => a ++ path ++ b) hfirst hlast)

/-- What an audit tells of the directory at that path. -/
def buriedAudit : Audit where
  registered := []
  failures := [(deep ++ "sub",
    "read failed: IO error for operation on " ++ (deep ++ "sub") ++ ": File name too long (os error 36)")]
  routes := 0

theorem ofLoaded_buried : Audit.ofLoaded (buried.system.loadAll deep ".policy") = .ok buriedAudit := by
  have hjoin : join deep "sub" = deep ++ "sub" := by
    rw [join, deep, endsWith_slashed, if_pos rfl]
    rfl
  have hload : ∀ path, loadFrom path ".policy" (.ok (.directory [("sub", .closed .nameTooLong)])) =
      .ok { failures := [⟨join path "sub", .read (.listing (join path "sub") .nameTooLong)⟩] } := fun _ => rfl
  rw [FileSystem.loadAll, find_deep, hload, hjoin, Audit.ofLoaded_ok]
  simp only [List.map_cons, List.map_nil, listing_message]
  rfl

theorem configured_buried :
    Configured (Host.ofTree buried "") [] ["check", "--policy-dir", deep]
      { command := .check false, directory := some deep } { directory := deep } := by
  have hhead : deep.toList.head? = some 'd' := by rw [deep, toList_slashed, List.head?_cons]
  have hne : deep ≠ "" := by
    intro he
    rw [he] at hhead
    cases hhead
  have hvalue : isValue deep = true := by
    rw [isValue, hhead]
    simp
  have hscan := scan_policyDir hne hvalue
  have hvars : withVariableFile (Host.ofTree buried "") [] = ([], []) := by cbv
  have hholds : (Host.ofTree buried "").holds defaultFile = false :=
    (holds_defaultFile buried.system "").trans (by cbv)
  exact configured_check hvars hholds hscan rfl (fun he => hne (Option.some.inj he)) rfl rfl

theorem tally_buriedAudit :
    "✗ " ++ tally deep buriedAudit ++ "; " ++ toString buriedAudit.failures.length ++ " failed" =
      "✗ 0 policies on 0 routes in " ++ deep ++ "; 1 failed" := by
  have hassoc (a b c d e path : String) : a ++ (b ++ path) ++ c ++ d ++ e = (a ++ b) ++ path ++ (c ++ d ++ e) := by
    simp only [String.append_assoc]
  have hfirst : "✗ " ++ (toString 0 ++ " policies on " ++ toString 0 ++ " routes in ") =
      "✗ 0 policies on 0 routes in " := by decide +kernel
  have hlast : "; " ++ toString 1 ++ " failed" = "; 1 failed" := by decide +kernel
  exact (hassoc _ _ _ _ _ deep).trans (congrArg₂ (fun a b => a ++ deep ++ b) hfirst hlast)

/-- The one failure is that of the directory. -/
theorem run_buried :
    run (Host.ofTree buried "") [] ["check", "--policy-dir", deep] =
      { code := 1
        errors := ["✗ " ++ (deep ++ "sub") ++ ": " ++
            ("read failed: IO error for operation on " ++ (deep ++ "sub") ++ ": File name too long (os error 36)"),
          "✗ 0 policies on 0 routes in " ++ deep ++ "; 1 failed"] } := by
  have hvars : (withVariableFile (Host.ofTree buried "") []).2 = [] := by cbv
  have hduplicates : buriedAudit.duplicates = [] := (Audit.duplicates_eq_nil _).2 List.nodup_nil
  rw [run_eq configured_buried, hvars]
  show (check { directory := deep } false .text (buried.system.find deep)).warned [] = _
  have haudit : Audit.ofLoaded (Settings.load { directory := deep } (buried.system.find deep)) = .ok buriedAudit :=
    ofLoaded_buried
  rw [check, haudit]
  show (auditLines { directory := deep } false buriedAudit).warned [] = _
  rw [auditLines_of_fails _ rfl, hduplicates, tally_buriedAudit]
  rfl

/-- The audit tells of each file below these entries that has the suffix, once, and of nothing else. -/
def TellsOfEach (suffix : String) (entries : List (FileName × FileTree)) (a : Audit) : Prop :=
  ∃ files : List FileBelow, files.Nodup ∧
    (∀ f, f ∈ files ↔ (∃ entry ∈ entries, Leads entry.1 entry.2 f) ∧
      (∃ content, f.content = .file content) ∧ f.name.HasSuffix suffix) ∧
    a.registered.length + a.failures.length = files.length

theorem TellsOfEach.count_chamber {a : Audit} (h : TellsOfEach ".policy" chamber a) :
    a.registered.length + a.failures.length = 2 := by
  obtain ⟨files, hnodup, hfiles, hcount⟩ := h
  have hsuffix : ∀ f ∈ filesBelow chamber, (∃ content, f.content = .file content) ∧ f.name.HasSuffix ".policy" := by
    simp only [chamber, filesBelow, filesAt, List.append_nil, List.cons_append, List.nil_append, List.map_cons,
      List.map_nil, List.forall_mem_cons, List.not_mem_nil]
    have ha : FileName.HasSuffix ".policy" "a.policy" := FileName.hasSuffix_iff.1 (by cbv)
    have hb : FileName.HasSuffix ".policy" "b.policy" := FileName.hasSuffix_iff.1 (by cbv)
    exact ⟨⟨⟨_, rfl⟩, ha⟩, ⟨⟨_, rfl⟩, hb⟩, fun _ hf => hf.elim⟩
  have hmem : ∀ f, f ∈ files ↔ f ∈ filesBelow chamber := by
    intro f
    rw [hfiles, mem_filesBelow]
    exact and_iff_left_of_imp fun hleads => hsuffix f ((mem_filesBelow _ _).2 hleads)
  have hnodup' : (filesBelow chamber).Nodup := List.Nodup.of_map FileBelow.names (by decide)
  have hperm : files.Perm (filesBelow chamber) := (List.perm_ext_iff_of_nodup hnodup hnodup').2 hmem
  rw [hcount, hperm.length_eq]
  rfl

theorem tally_ne_of_registered {path : String} {a : Audit} (h : a.registered.length = 1) (rest : String) :
    "✗ 0 policies on 0 routes in " ++ path ++ "; 1 failed" ≠ "✗ " ++ tally path a ++ "; " ++ rest ++ " failed" := by
  intro he
  have hthird := congrArg (fun line : String => line.toList[2]?) he
  have hone : Nat.toDigits 10 1 = ['1'] := rfl
  simp [tally, h, hone, String.toList_append] at hthird

theorem failure_ne_duplicate (failure id : String) : "✗ " ++ failure ≠ "! Duplicate policy ID: " ++ id := by
  intro he
  have hfirst := congrArg (fun line : String => line.toList.head?) he
  simp [String.toList_append] at hfirst

/-- Two lines like these do not show two policies or failures. -/
theorem count_of_lines {path line : String} {a : Audit} {o : Outcome} (hcode : o.code = 1)
    (hline : ∃ failure, line = "✗ " ++ failure)
    (herrors : o.errors = [line, "✗ 0 policies on 0 routes in " ++ path ++ "; 1 failed"])
    (h : Shows path a [] o .text) : a.registered.length + a.failures.length ≠ 2 := by
  intro hcount
  obtain ⟨failure, rfl⟩ := hline
  have hshown := h.2
  rw [herrors, hcode, if_neg (by decide), List.nil_append] at hshown
  have hlast : ["✗ " ++ failure] ++ [_] = _ ++ [_] := hshown
  have hone (line line' : String) : [line].length = [line'].length := rfl
  obtain ⟨hlines, htally⟩ := List.append_inj' hlast (hone _ _)
  rw [List.singleton_inj] at htally
  cases hfailures : a.failures with
  | nil =>
    rw [hfailures, List.map_nil, List.nil_append] at hlines
    cases hduplicates : a.duplicates with
    | nil => rw [hduplicates] at hlines; cases hlines
    | cons id ids =>
      rw [hduplicates, List.map_cons] at hlines
      exact failure_ne_duplicate failure id (List.cons_eq_cons.1 hlines).1
  | cons f failures =>
    have hlength := congrArg List.length hlines
    simp only [hfailures, List.length_append, List.length_map, List.length_cons, List.length_nil] at hlength
    rw [hfailures, List.length_cons] at hcount
    exact tally_ne_of_registered (by omega) _ htally

/-- A check of a directory on a way that is too long tells of less: two files are there, and one failure is counted. -/
theorem not_tellsOfEach_buried :
    Configured (Host.ofTree buried "") [] ["check", "--policy-dir", deep]
      { command := .check false, directory := some deep } { directory := deep } ∧
    buried.system.root.Ordered ∧ buried.system.node deep = .ok (.directory chamber) ∧
    run (Host.ofTree buried "") [] ["check", "--policy-dir", deep] =
      { code := 1
        errors := ["✗ " ++ (deep ++ "sub") ++ ": " ++
            ("read failed: IO error for operation on " ++ (deep ++ "sub") ++ ": File name too long (os error 36)"),
          "✗ 0 policies on 0 routes in " ++ deep ++ "; 1 failed"] } ∧
    ¬ ∃ a, Shows deep a [] (run (Host.ofTree buried "") [] ["check", "--policy-dir", deep]) .text ∧
      TellsOfEach ".policy" chamber a := by
  refine ⟨configured_buried, ordered_buried, node_slashed (by decide), run_buried, ?_⟩
  rintro ⟨a, hshows, htells⟩
  rw [run_buried] at hshows
  exact count_of_lines rfl ⟨_, String.append_assoc.trans String.append_assoc⟩ rfl hshows htells.count_chamber

end AccessPolicy.CommandLine
