import AccessPolicy.Markup.Scanner
import AccessPolicy.Proofs.Text.Bytes
import AccessPolicy.Proofs.Markup.Head

/-!
# Walks over bytes are walks over characters

A walk that passes over all bytes from 128 on takes one character after the other, also when a backslash has brought it
inside of one (`walk_cons`, `walk_inside`).  So what is found byte by byte is what stands in the text: names and blanks
(`pastRun_eq`), markup (`markupAt_eq`), closing quotes (`closingQuote_eq`, `quoteBeforeMarkup_eq`) and runs of text
(`pastText_eq`).  That the two searches for a closing quote agree needs no characters: they look at the same bytes
(`closingQuote_of_quoteBeforeMarkup`).
-/

namespace AccessPolicy.Markup

open Text

variable {cs before rest : List Char} {c : Char}

/-! ### Slices behind a prefix -/

theorem slice_eq {s : List Char} (after : List Char) {start stop : Nat} (h : cs = before ++ s ++ after)
    (hstart : start = byteSize before) (hstop : stop = byteSize (before ++ s)) :
    slice cs ⟨start, stop⟩ = .ok s := by
  rw [slice, slice?_eq_some.2 ⟨before, after, h, hstart, hstop⟩]

theorem slice_eq_ok {span : Span} {s : List Char} :
    slice cs span = .ok s ↔ ∃ before after, cs = before ++ s ++ after ∧ span.start = byteSize before ∧
      span.stop = byteSize (before ++ s) := by
  rw [slice, ← slice?_eq_some]
  cases slice? cs span.start span.stop <;> simp

theorem slice_to_end (h : cs = before ++ rest) : slice cs ⟨byteSize before, byteSize cs⟩ = .ok rest :=
  slice_eq [] (by simpa using h) rfl (by rw [h])

/-! ### Walks over characters -/

section Walk

variable {α : Type} {move : Nat → Char → Move α} {last : Nat → α}

/-- Bytes that are no ASCII character are passed over. -/
def Passing (move : Nat → Char → Move α) : Prop := ∀ i b, 128 ≤ b.toNat → move i b = .next

/-- From inside a character, or from its end, a walk goes on behind it. -/
theorem walk_inside (hmove : Passing move) (h : cs = before ++ c :: rest) {k : Nat}
    (hpos : 0 < k) (hk : k ≤ c.utf8Size) :
    walk cs move last (byteSize before + k) = walk cs move last (byteSize (before ++ [c])) := by
  obtain ⟨n, hn⟩ := Nat.exists_eq_add_of_le hk
  induction n generalizing k with
  | zero => simp [hn]
  | succ n ih =>
    have hlt : k < c.utf8Size := by omega
    obtain ⟨b, hb, hhigh⟩ := exists_byteAt? before rest hlt (.inl hpos)
    rw [← h] at hb
    rw [walk_of_some hb, hmove _ _ hhigh]
    exact ih (Nat.succ_pos k) (by omega) (by omega)

/-- A walk looks at a character as a whole. -/
theorem walk_cons (hmove : Passing move) (h : cs = before ++ c :: rest) :
    walk cs move last (byteSize before) = (move (byteSize before) c).result
      (walk cs move last (byteSize (before ++ [c]))) (walk cs move last (byteSize (before ++ [c]) + 1)) := by
  by_cases hc : c.toNat < 128
  · have hbyte : byteAt? cs (byteSize before) = some c := h ▸ byteAt?_ascii hc
    have hsize : byteSize (before ++ [c]) = byteSize before + 1 := by simp [utf8Size_ascii hc]
    rw [walk_of_some hbyte, hsize]
  · obtain ⟨b, hb, hhigh⟩ := exists_byteAt? before rest c.utf8Size_pos (.inr (Nat.le_of_not_lt hc))
    rw [Nat.add_zero, ← h] at hb
    rw [walk_of_some hb, hmove _ _ hhigh, hmove _ _ (Nat.le_of_not_lt hc)]
    exact walk_inside hmove h Nat.one_pos c.utf8Size_pos

theorem walk_end (h : cs = before) : walk cs move last (byteSize before) = last (byteSize before) :=
  walk_of_none (byteAt?_eq_none.2 (by rw [h]))

/-- The character behind a backslash is not looked at. -/
theorem walk_escaped (hmove : Passing move) (hskip : ∀ i, move i '\\' = .skip)
    (h : cs = before ++ '\\' :: c :: rest) :
    walk cs move last (byteSize before) = walk cs move last (byteSize (before ++ ['\\'] ++ [c])) := by
  rw [walk_cons hmove h, hskip]
  exact walk_inside hmove (h.trans (List.append_cons _ _ _)) Nat.one_pos c.utf8Size_pos

/-- A walk goes behind the end of a text that ends with a backslash. -/
theorem walk_backslash (hmove : Passing move) (hskip : ∀ i, move i '\\' = .skip) (h : cs = before ++ ['\\']) :
    walk cs move last (byteSize before) = last (byteSize cs + 1) := by
  rw [walk_cons hmove h, hskip, ← h]
  exact walk_of_none (byteAt?_eq_none.2 (Nat.le_succ _))

end Walk

/-- A run ends where the characters that pass the test do. -/
theorem pastRun_eq {p : Char → Bool} (hp : ∀ b, 128 ≤ b.toNat → p b = false) (h : cs = before ++ rest) :
    pastRun p cs (byteSize before) = byteSize (before ++ rest.takeWhile p) := by
  induction rest generalizing before with
  | nil =>
    rw [pastRun, walk_end (by simpa using h)]
    simp
  | cons c rest ih =>
    obtain ⟨b, hb, hlike⟩ := byteAt?_cons before c rest
    rw [← h] at hb
    have hsame : p b = p c := hlike.test_eq hp
    cases hc : p c with
    | true =>
      have hascii : c.toNat < 128 := by
        refine Nat.lt_of_not_le fun hle => ?_
        rw [hp c hle] at hc
        cases hc
      have hnext := ih (h.trans (List.append_cons _ _ _))
      rw [pastRun, walk_of_some hb, hsame, hc, List.takeWhile_cons_of_pos hc]
      simpa [utf8Size_ascii hascii, pastRun] using hnext
    | false =>
      rw [pastRun, walk_of_some hb, hsame, hc]
      simp [hc]

private theorem of_high {p : Char → Bool} (hp : ∀ c, p c = true → c.toNat < 128) {b : Char}
    (hb : 128 ≤ b.toNat) : p b = false := by
  cases h : p b with
  | false => rfl
  | true =>
    have := hp b h
    omega

theorem isNameChar_of_high {b : Char} (hb : 128 ≤ b.toNat) : isNameChar b = false := by
  refine of_high (fun c hc => ?_) hb
  have := toNat_of_isNameChar hc
  omega

theorem isNameStart_of_high {b : Char} (hb : 128 ≤ b.toNat) : isNameStart b = false := by
  refine of_high (fun c hc => ?_) hb
  have := toNat_of_isNameChar (isNameChar_of_isNameStart hc)
  omega

theorem isTagBlank_of_high {b : Char} (hb : 128 ≤ b.toNat) : isTagBlank b = false := by
  refine of_high (fun c hc => ?_) hb
  simp only [isTagBlank, Bool.or_eq_true, beq_iff_eq] at hc
  rcases hc with (((rfl | rfl) | rfl) | rfl) | rfl <;> decide

/-! ### Markup, quotes and text -/

/-- The byte at a position is an ASCII character exactly when the character there is. -/
theorem byteAt?_eq_iff (h : cs = before ++ rest) {d : Char} (hd : d.toNat < 128) :
    byteAt? cs (byteSize before) = some d ↔ rest.head? = some d := by
  cases rest with
  | nil =>
    rw [byteAt?_eq_none.2 (by rw [h, List.append_nil])]
    simp
  | cons c rest =>
    obtain ⟨b, hb, hlike⟩ := byteAt?_cons before c rest
    rw [h, hb, Option.some.injEq, List.head?_cons, Option.some.injEq]
    exact hlike.eq_iff hd

theorem byteSize_concat {d : Char} (hd : d.toNat < 128) (before : List Char) :
    byteSize (before ++ [d]) = byteSize before + 1 := by
  simp [utf8Size_ascii hd]

theorem opensMarkup_bang (cs : List Char) : opensMarkup ('!' :: cs) = ['-', '-'].isPrefixOf cs := by
  have hbang : isNameStart '!' = false := by decide
  rcases cs with - | ⟨a, - | ⟨b, cs⟩⟩
  all_goals
    unfold opensMarkup
    grind [List.isPrefixOf]

theorem opensMarkup_of_ne {c : Char} (hslash : c ≠ '/') (hbang : c ≠ '!') (cs : List Char) :
    opensMarkup (c :: cs) = isNameStart c := by
  unfold opensMarkup
  grind

theorem markupAt_eq (h : cs = before ++ '<' :: rest) : markupAt cs (byteSize before) = .ok (opensMarkup rest) := by
  have h' : cs = (before ++ ['<']) ++ rest := by simpa using h
  rw [markupAt, ← byteSize_concat (by decide : '<'.toNat < 128)]
  cases rest with
  | nil => rw [byteAt?_eq_none.2 (by rw [h', List.append_nil])]; rfl
  | cons c rest =>
    obtain ⟨b, hb, hlike⟩ := byteAt?_cons (before ++ ['<']) c rest
    rw [← h'] at hb
    rw [hb]
    by_cases hslash : c = '/'
    · obtain rfl := (hlike.eq_iff (by decide)).2 hslash
      rw [hslash]
      rfl
    by_cases hbang : c = '!'
    · obtain rfl := (hlike.eq_iff (by decide)).2 hbang
      rw [slice_to_end h, hbang, opensMarkup_bang]
      rfl
    · rw [opensMarkup_of_ne hslash hbang, ← hlike.test_eq fun _ => isNameStart_of_high]
      split
      · rename_i heq
        exact absurd ((hlike.eq_iff (by decide)).1 (Option.some.inj heq)) hslash
      · rename_i heq
        exact absurd ((hlike.eq_iff (by decide)).1 (Option.some.inj heq)) hbang
      · rename_i heq
        cases heq
        rfl
      · rename_i heq
        cases heq

private theorem moveAtMarkup_eq {α : Type} (h : cs = before ++ '<' :: rest) (result : α) :
    moveAtMarkup cs (byteSize before) result = if opensMarkup rest then .stop (.ok result) else .next := by
  rw [moveAtMarkup, markupAt_eq h]
  cases opensMarkup rest <;> rfl

theorem passing_closingMove {q : Char} (hq : q.toNat < 128) : Passing (closingMove q) := by
  intro i b hb
  rw [closingMove, if_neg, if_neg]
  · rintro rfl
    omega
  · rintro rfl
    exact absurd hb (by decide)

theorem closingQuote_eq {q : Char} (hq : q.toNat < 128) (hne : q ≠ '\\') (h : cs = before ++ rest) :
    closingQuote q cs (byteSize before) = (splitQuoted q rest).map fun (body, _) => byteSize (before ++ body) := by
  have hmove := passing_closingMove hq
  have hskip : ∀ i, closingMove q i '\\' = .skip := fun i => if_pos rfl
  rw [closingQuote]
  induction rest using splitQuoted.induct q generalizing before with
  | case1 => exact walk_end (by simpa using h)
  | case2 c rest ih =>
    rw [walk_escaped hmove hskip h, ih (by simpa using h), splitQuoted, Option.map_map]
    simp [Function.comp_def]
  | case3 rest escape =>
    rw [walk_cons hmove h, closingMove, if_neg hne, if_pos rfl, splitQuoted, if_pos rfl]
    · simp
    · exact escape
  | case4 c rest escape hc ih =>
    rw [splitQuoted, if_neg hc]
    · by_cases hback : c = '\\'
      · subst hback
        cases rest with
        | nil => rw [walk_backslash hmove hskip h]; rfl
        | cons d rest => exact absurd rfl (escape d rest rfl)
      · rw [walk_cons hmove h, closingMove, if_neg hback, if_neg hc]
        dsimp only
        rw [ih (by simpa using h), Option.map_map]
        simp [Function.comp_def]
    · exact escape

theorem passing_searchMove : Passing (searchMove cs) := by
  intro i b hb
  unfold searchMove
  split
  · exact absurd hb (by decide)
  · exact absurd hb (by decide)
  · exact absurd hb (by decide)
  · rfl

theorem quoteBeforeMarkup_eq (h : cs = before ++ rest) :
    (quoteBeforeMarkup cs (byteSize before)).map Option.isSome = .ok (closesBeforeMarkup rest) := by
  have hmove : Passing (searchMove cs) := passing_searchMove
  have hskip : ∀ i, searchMove cs i '\\' = .skip := fun i => rfl
  rw [quoteBeforeMarkup]
  induction rest using closesBeforeMarkup.induct generalizing before with
  | case1 => rw [walk_end (by simpa using h)]; rfl
  | case2 c rest ih => rw [walk_escaped hmove hskip h, ih (by simpa using h), closesBeforeMarkup]
  | case3 rest => rw [walk_cons hmove h]; rfl
  | case4 rest ih =>
    rw [walk_cons hmove h, searchMove, moveAtMarkup_eq h, closesBeforeMarkup]
    cases opensMarkup rest with
    | true => rfl
    | false => simpa using ih (h.trans (List.append_cons _ _ _))
  | case5 c rest escape hquote hless ih =>
    by_cases hback : c = '\\'
    · subst hback
      cases rest with
      | nil => rw [walk_backslash hmove hskip h]; rfl
      | cons d rest => exact absurd rfl (escape d rest rfl)
    · have hnext : searchMove cs (byteSize before) c = .next := by
        unfold searchMove
        split <;> simp_all
      rw [walk_cons hmove h, hnext, closesBeforeMarkup]
      · exact ih (by simpa using h)
      all_goals assumption

/-- Where markup is looked out for, a quote that is found is the one that closes the text. -/
theorem closingQuote_of_quoteBeforeMarkup {i j : Nat} (h : quoteBeforeMarkup cs i = .ok (some j)) :
    closingQuote '"' cs i = some j := by
  rw [quoteBeforeMarkup] at h
  rw [closingQuote]
  fun_induction walk cs (searchMove cs) (fun _ => .ok none) i with
  | case1 => cases h
  | case2 i b hb a hmove =>
    have hquote : b = '"' ∧ i = j := by
      unfold searchMove moveAtMarkup at hmove
      split at hmove
      · cases hmove
      · cases hmove
        cases h
        exact ⟨rfl, rfl⟩
      · split at hmove <;> cases hmove <;> cases h
      · cases hmove
    rw [walk_of_some hb, hquote.1, hquote.2]
    rfl
  | case3 i b hb hmove ih =>
    have hnext : closingMove '"' i b = .next := by
      unfold searchMove at hmove
      split at hmove
      · cases hmove
      · cases hmove
      · rfl
      · rename_i hback hquote _
        rw [closingMove, if_neg hback, if_neg hquote]
    rw [walk_of_some hb, hnext]
    exact ih h
  | case4 i b hb hmove ih =>
    have hback : b = '\\' := by
      unfold searchMove moveAtMarkup at hmove
      split at hmove
      · rfl
      · cases hmove
      · split at hmove <;> cases hmove
      · cases hmove
    rw [walk_of_some hb, hback]
    exact ih h

theorem passing_textMove : Passing (textMove cs) := by
  intro i b hb
  unfold textMove
  split
  · exact absurd hb (by decide)
  · exact absurd hb (by decide)
  · rfl

theorem pastText_eq (h : cs = before ++ rest) :
    pastText cs (byteSize before) = .ok (byteSize (before ++ (splitRun rest).1)) := by
  have hmove : Passing (textMove cs) := passing_textMove
  rw [pastText]
  induction rest generalizing before with
  | nil => rw [walk_end (by simpa using h)]; simp [splitRun]
  | cons c rest ih =>
    have hnext := ih (h.trans (List.append_cons _ _ _))
    rw [walk_cons hmove h, splitRun]
    by_cases hquote : c = '"'
    · subst hquote
      simp [textMove]
    by_cases hless : c = '<'
    · subst hless
      rw [textMove, moveAtMarkup_eq h]
      cases hmarkup : opensMarkup rest with
      | true => simp
      | false => simpa using hnext
    · have hplain : textMove cs (byteSize before) c = .next := by
        unfold textMove
        split <;> simp_all
      rw [hplain]
      simpa [hquote, hless] using hnext

end AccessPolicy.Markup
