import Mathlib
import AccessPolicy.CommandLine
import AccessPolicy.Proofs.FileTree.Walk

/-!
# Runs whose settings are right

A run with arguments that stand for an invocation, and with settings that have no fault, is the command after the
warnings of the file of variables (`run_eq`).  Where there are no files of variables and settings, the arguments say all
(`configured_check`).
-/

namespace AccessPolicy.CommandLine

open FileTree

/-! ### Arguments -/

/-- The arguments behind the name of the command are all of its own level. -/
theorem ofArguments_check {args : List String} {after : Given} {rest : List String}
    (h : scan .check {} args = .ok (after, rest)) :
    Invocation.ofArguments none ("check" :: args) =
      .ok { command := .check (after.has .strict), config := after.value? .config, directory := after.value? .policyDir
            suffix := after.value? .suffix, level := after.value? .logLevel
            format := ((after.value? .format).bind Format.ofName?).getD .text } := by
  have hname : Argument.ofText .program "check" = .operand := by cbv
  have hscan : scan .program {} ("check" :: args) = .ok ({}, "check" :: args) := by
    rw [scan, hname]
    rfl
  have hlevel : Level.ofName? "check" = some .check := rfl
  rw [Invocation.ofArguments, hscan]
  simp [bind, Except.bind, hlevel, h, Command.ofGiven, pure, Except.pure, Given.value?]

/-- The value of the switch is a path that does not look like a switch. -/
theorem scan_policyDir {path : String} (hne : path ≠ "") (h : isValue path = true) :
    scan .check {} ["--policy-dir", path] = .ok ({ values := [(.policyDir, path)] }, []) := by
  have hdirectory : Argument.ofText .check "--policy-dir" = .switch .policyDir none := by cbv
  have hadd : Given.add {} .policyDir path = .ok { values := [(.policyDir, path)] } := by
    simp [Given.add, Given.has, Given.value?, Switch.admits, hne]
  rw [scan, hdirectory]
  simp only [Switch.takesValue, if_true, h, hadd, bind, Except.bind]
  rw [scan]

/-! ### Settings -/

/-- The default file is looked for in the working directory. -/
theorem holds_defaultFile (system : FileSystem) (input : String) :
    (Host.ofSystem system input).holds defaultFile =
      (follow maxLinks [] system.root (system.workplace ++ [defaultFile])).isOk := by
  have hnode : system.node defaultFile = follow maxLinks [] system.root (system.workplace ++ [defaultFile]) :=
    system.node_name (by cbv) (by decide) (by decide) (by cbv) (by decide)
  show (system.find defaultFile).isOk = _
  rw [FileSystem.find, hnode]
  cases follow maxLinks [] system.root (system.workplace ++ [defaultFile]) with
  | error cause => rfl
  | ok found => rfl

theorem fileSettings_of_missing {host : Host Id} (h : host.holds defaultFile = false) :
    fileSettings host none = .ok [] := by
  simp only [fileSettings, Option.getD_none, h]
  rfl

set_option maxRecDepth 8000 in
private theorem lower_info : Text.lower "info" = "info" := by cbv

/-- Where there are no files of variables and settings, the settings are the defaults but for the directory, if no other
is named. -/
theorem settingsOf_nil {invocation : Invocation} (hdirectory : invocation.directory ≠ some "")
    (hsuffix : invocation.suffix = none) (hlevel : invocation.level = none) :
    settingsOf [] [] invocation = .ok { directory := invocation.directory.getD "policies" } := by
  have hdefault : Settings.ofSetting? (.table []) = some {} := by cbv
  have hne : invocation.directory.getD "policies" ≠ "" := by
    cases h : invocation.directory with
    | none => decide
    | some directory => exact fun he => hdirectory (h.trans (congrArg some he))
  have hfault : ({ directory := invocation.directory.getD "policies" } : Settings).fault? = none := by
    simp [Settings.fault?, lower_info, hne, Settings.levels]
  show ((Settings.ofSetting? (.table [])).elim (Except.error CommandError.settingsType) Except.ok >>= _) = _
  rw [hdefault]
  simp only [Option.elim, bind, Except.bind, hsuffix, hlevel, Option.getD_none]
  rw [hfault]

/-! ### Runs -/

/-- Arguments that stand for an invocation, and settings that come with it and have no fault. -/
structure Configured (host : Host Id) (vars : Variables) (args : List String) (invocation : Invocation)
    (settings : Settings) : Prop where
  invoked : Invocation.ofArguments ((withVariableFile host vars).1.get? "WARDEN_CONFIG") args = .ok invocation
  settled : ∃ file, fileSettings host invocation.config = .ok file ∧
    settingsOf file (withVariableFile host vars).1 invocation = .ok settings

theorem run_eq [Regex.Engine] {host : Host Id} {vars : Variables} {args : List String} {invocation : Invocation}
    {settings : Settings} (h : Configured host vars args invocation settings) :
    run host vars args = (runCommand host settings invocation).warned (withVariableFile host vars).2 := by
  obtain ⟨hinvoked, file, hfile, hsettings⟩ := h
  rcases hvars : withVariableFile host vars with ⟨defined, warnings⟩
  rw [hvars] at hinvoked hsettings
  simp only [run, bind, pure, hvars, hinvoked, hfile, hsettings]

/-- Without files of variables and settings a check is configured by its arguments. -/
theorem configured_check {host : Host Id} {args : List String} {after : Given} {rest : List String}
    (hvars : withVariableFile host [] = ([], [])) (hfile : host.holds defaultFile = false)
    (hscan : scan .check {} args = .ok (after, rest)) (hconfig : after.value? .config = none)
    (hdirectory : after.value? .policyDir ≠ some "") (hsuffix : after.value? .suffix = none)
    (hlevel : after.value? .logLevel = none) :
    Configured host [] ("check" :: args)
      { command := .check (after.has .strict), directory := after.value? .policyDir
        format := ((after.value? .format).bind Format.ofName?).getD .text }
      { directory := (after.value? .policyDir).getD "policies" } := by
  constructor
  · rw [hvars]
    refine (ofArguments_check hscan).trans ?_
    rw [hconfig, hsuffix, hlevel]
  · rw [hvars]
    exact ⟨[], fileSettings_of_missing hfile, settingsOf_nil hdirectory rfl rfl⟩

end AccessPolicy.CommandLine
