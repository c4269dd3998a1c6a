import SmolVlm2Kv260.Text.Search

/-!
# Texts with quoted strings

A text whose quotes come in pairs is described by the strings between them (`Quoted`): each
comes with a value that the text behind its closing quote shows, for a relation `R` between
texts and values.  A search for a quoted string is then a search in the list of these strings
(`seek`), and of two positions at opening quotes the one with fewer strings from there on is
the later one.
-/

set_option autoImplicit false

namespace Text

variable {V : Type} {R : List Char → V → Prop}

/-- What may follow a closing quote. -/
def IsSeparator (c : Char) : Prop := c = ':' ∨ c = ',' ∨ c = '\n'

instance (c : Char) : Decidable (IsSeparator c) := inferInstanceAs (Decidable (_ ∨ _))

/-- The text is empty or begins with a separator. -/
def Separated (text : List Char) : Prop := ∀ c ∈ text.head?, IsSeparator c

/-- The strings between the quotes of a text, each with a value that what follows it shows. -/
inductive Quoted (R : List Char → V → Prop) : List Char → List (String × V) → Prop
  | nil : Quoted R [] []
  | char {c : Char} {text : List Char} {strings : List (String × V)} (hc : c ≠ '"')
      (h : Quoted R text strings) : Quoted R (c :: text) strings
  | string {s : String} {v : V} {text : List Char} {strings : List (String × V)}
      (hs : '"' ∉ s.toList) (hsep : Separated text) (hv : R text v) (h : Quoted R text strings) :
      Quoted R ('"' :: (s.toList ++ '"' :: text)) ((s, v) :: strings)

/-- A string that is searched for, in quotes.  It cannot be what stands between two strings. -/
structure IsKey (key : String) : Prop where
  quote : '"' ∉ key.toList
  colon : ':' ∉ key.toList
  first : ∃ c ∈ key.toList.head?, ¬ IsSeparator c

theorem isKey_iff {key : String} :
  IsKey key ↔ '"' ∉ key.toList ∧ ':' ∉ key.toList
    ∧ key.toList.head?.any (fun c => decide (¬ IsSeparator c)) = true
  := by
  simp only [Option.any_eq_true, decide_eq_true_eq]
  constructor
  · rintro ⟨hquote, hcolon, hfirst⟩
    exact ⟨hquote, hcolon, hfirst⟩
  · rintro ⟨hquote, hcolon, hfirst⟩
    exact ⟨hquote, hcolon, hfirst⟩

instance (key : String) : Decidable (IsKey key) := decidable_of_iff _ isKey_iff.symm

/-- The key in quotes, with what follows it. -/
def quoted (key : String) (text : List Char) : List Char := '"' :: (key.toList ++ '"' :: text)

/-- The value of the first string `key` whose value satisfies `p`, and the strings behind it. -/
def seek (key : String) (p : V → Bool) : List (String × V) → Option (V × List (String × V))
  | [] => none
  | (s, v) :: strings => if s = key ∧ p v then some (v, strings) else seek key p strings

/-- What is found with the strings behind it is an end of the list. -/
theorem suffix_of_seek {key : String} {p : V → Bool} {strings rest : List (String × V)} {v : V}
    (h : seek key p strings = some (v, rest)) :
  (key, v) :: rest <:+ strings ∧ p v = true
  := by
  induction strings with
  | nil => cases h
  | cons e strings ih =>
      obtain ⟨s, w⟩ := e
      rw [seek] at h
      by_cases hmatch : s = key ∧ p w = true
      · obtain ⟨rfl, hp⟩ := hmatch
        rw [if_pos ⟨rfl, hp⟩] at h
        cases h
        exact ⟨List.suffix_rfl, hp⟩
      · rw [if_neg hmatch] at h
        exact ⟨(ih h).1.trans (List.suffix_cons _ _), (ih h).2⟩

theorem length_lt_of_seek {key : String} {p : V → Bool} {strings rest : List (String × V)} {v : V}
    (h : seek key p strings = some (v, rest)) :
  rest.length < strings.length
  := (suffix_of_seek h).1.length_le

theorem mem_of_seek {key : String} {p : V → Bool} {strings rest : List (String × V)} {v : V}
    (h : seek key p strings = some (v, rest)) :
  (key, v) ∈ strings
  := (suffix_of_seek h).1.subset List.mem_cons_self

theorem seek_cons_self {key : String} {p : V → Bool} {v : V} (hp : p v = true)
    (strings : List (String × V)) :
  seek key p ((key, v) :: strings) = some (v, strings)
  := if_pos ⟨rfl, hp⟩

theorem seek_cons_of_ne {key s : String} (p : V → Bool) (v : V) (hs : s ≠ key)
    (strings : List (String × V)) :
  seek key p ((s, v) :: strings) = seek key p strings
  := if_neg fun h => hs h.1

theorem seek_append_of_not {key : String} {p : V → Bool} {strings : List (String × V)}
    (h : ∀ e ∈ strings, ¬ (e.1 = key ∧ p e.2 = true)) (strings' : List (String × V)) :
  seek key p (strings ++ strings') = seek key p strings'
  := by
  induction strings with
  | nil => rfl
  | cons e strings ih =>
      obtain ⟨hnot, h⟩ := List.forall_mem_cons.mp h
      rw [List.cons_append, seek, if_neg hnot, ih h]

theorem seek_append_of_ne {key : String} (p : V → Bool) {strings : List (String × V)}
    (h : ∀ e ∈ strings, e.1 ≠ key) (strings' : List (String × V)) :
  seek key p (strings ++ strings') = seek key p strings'
  := seek_append_of_not (fun e he hkey => h e he hkey.1) strings'

/-- What is found in the first of two lists is followed by the second. -/
theorem seek_append_of_some {key : String} {p : V → Bool} {strings rest : List (String × V)}
    {v : V} (h : seek key p strings = some (v, rest)) (strings' : List (String × V)) :
  seek key p (strings ++ strings') = some (v, rest ++ strings')
  := by
  induction strings with
  | nil => cases h
  | cons e strings ih =>
      rw [seek] at h
      rw [List.cons_append, seek]
      by_cases hmatch : e.1 = key ∧ p e.2 = true
      · rw [if_pos hmatch] at h ⊢
        cases h
        rfl
      · rw [if_neg hmatch] at h ⊢
        apply ih h

/-- Something is found just when the key is there with a value that satisfies `p`. -/
theorem seek_isSome_iff {key : String} {p : V → Bool} {strings : List (String × V)} :
  (∃ found, seek key p strings = some found) ↔ ∃ v, (key, v) ∈ strings ∧ p v = true
  := by
  constructor
  · rintro ⟨⟨v, rest⟩, h⟩
    exact ⟨v, mem_of_seek h, (suffix_of_seek h).2⟩
  · rintro ⟨v, hmem, hp⟩
    induction strings with
    | nil => cases hmem
    | cons e strings ih =>
        obtain ⟨s, w⟩ := e
        rw [seek]
        by_cases hmatch : s = key ∧ p w = true
        · exact ⟨_, if_pos hmatch⟩
        · rw [if_neg hmatch]
          rcases List.mem_cons.mp hmem with heq | hmem
          · cases heq
            exact absurd ⟨rfl, hp⟩ hmatch
          · apply ih hmem

/-! ### Strings and places -/

theorem Quoted.append {pre text : List Char} {strings : List (String × V)}
    (hpre : '"' ∉ pre) (h : Quoted R text strings) :
  Quoted R (pre ++ text) strings
  := by
  induction pre with
  | nil => exact h
  | cons c pre ih =>
      apply Quoted.char
      · rintro rfl
        apply hpre List.mem_cons_self
      · apply ih fun hmem => hpre (List.mem_cons_of_mem c hmem)

theorem Quoted.of_append {pre text : List Char} {strings : List (String × V)}
    (hpre : '"' ∉ pre) (h : Quoted R (pre ++ text) strings) :
  Quoted R text strings
  := by
  induction pre with
  | nil => exact h
  | cons c pre ih =>
      rw [List.cons_append] at h
      generalize hrest : pre ++ text = rest at h
      cases h with
      | char hc h =>
          rw [← hrest] at h
          apply ih (fun hmem => hpre (List.mem_cons_of_mem c hmem)) h
      | string => exact absurd List.mem_cons_self hpre

/-- Each string has two quotes. -/
theorem Quoted.count {text : List Char} {strings : List (String × V)}
    (h : Quoted R text strings) :
  text.count '"' = 2 * strings.length
  := by
  induction h with
  | nil => rfl
  | char hc h ih => rw [List.count_cons_of_ne hc, ih]
  | string hs hsep hv h ih =>
      rw [List.count_cons_self, List.count_append, List.count_cons_self,
        List.count_eq_zero_of_not_mem hs, ih, List.length_cons]
      omega

private theorem count_drop_lt {text rest : List Char} {pos pos' : ℕ}
    (h : text.drop pos = '"' :: rest) (hlt : pos < pos') :
  (text.drop pos').count '"' < (text.drop pos).count '"'
  := by
  obtain ⟨d, rfl⟩ := Nat.exists_eq_add_of_lt hlt
  have hdrop : text.drop (pos + d + 1) = rest.drop d := by
    rw [Nat.add_assoc, ← List.drop_drop, h, List.drop_succ_cons]
  have hle := (List.drop_sublist d rest).count_le '"'
  rw [hdrop, h, List.count_cons_self]
  omega

/-- Of two positions at quotes the one with fewer strings from there on is the later one. -/
theorem lt_iff_of_quoted {text rest rest' : List Char} {pos pos' : ℕ}
    {strings strings' : List (String × V)}
    (h : Quoted R (text.drop pos) strings) (h' : Quoted R (text.drop pos') strings')
    (hrest : text.drop pos = '"' :: rest) (hrest' : text.drop pos' = '"' :: rest') :
  pos' < pos ↔ strings.length < strings'.length
  := by
  have hcount := h.count
  have hcount' := h'.count
  constructor
  · intro hlt
    have := count_drop_lt hrest' hlt
    omega
  · intro hlt
    by_contra hle
    rcases Nat.eq_or_lt_of_le (Nat.le_of_not_lt hle) with rfl | hlt'
    · omega
    · have := count_drop_lt hrest hlt'
      omega

/-! ### Searching -/

/-- A quoted string stands at an opening quote just when it is the string there. -/
theorem prefix_append_quote_iff {k s r text : List Char} (hk : '"' ∉ k) (hs : '"' ∉ s) :
  k ++ '"' :: r <+: s ++ '"' :: text ↔ s = k ∧ r <+: text
  := by
  induction k generalizing s with
  | nil =>
      cases s with
      | nil => simp only [List.nil_append, List.prefix_cons_inj, true_and]
      | cons d s =>
          have hd : '"' ≠ d := fun h => hs (h ▸ List.mem_cons_self)
          simp only [List.nil_append, List.cons_append, List.cons_prefix_cons, hd, false_and,
            reduceCtorEq]
  | cons c k ih =>
      cases s with
      | nil =>
          have hc : c ≠ '"' := fun h => hk (h ▸ List.mem_cons_self)
          simp only [List.nil_append, List.cons_append, List.cons_prefix_cons, hc, false_and,
            reduceCtorEq]
      | cons d s =>
          have ih := ih (fun h => hk (List.mem_cons_of_mem c h)) (s := s)
            fun h => hs (List.mem_cons_of_mem d h)
          rw [List.cons_append, List.cons_append, List.cons_prefix_cons, ih, List.cons.injEq,
            and_assoc, eq_comm]

/-- A quoted key does not begin at a closing quote. -/
theorem not_prefix_of_separated {key : String} {r text : List Char} (hkey : IsKey key)
    (hsep : Separated text) :
  ¬ quoted key r <+: '"' :: text
  := by
  obtain ⟨c, hc, hnot⟩ := hkey.first
  obtain ⟨k, hk⟩ := List.head?_eq_some_iff.mp hc
  rw [quoted, hk, List.prefix_cons_inj, List.cons_append]
  intro hprefix
  apply hnot
  apply hsep
  obtain ⟨rest, hrest⟩ := hprefix
  rw [← hrest]
  rfl

/-- The key is searched for behind a string that it does not stand at. -/
theorem findFrom_string {key s : String} {r text : List Char} (hkey : IsKey key)
    (hs : '"' ∉ s.toList) (hsep : Separated text)
    (hne : ¬ quoted key r <+: '"' :: (s.toList ++ '"' :: text)) :
  findFrom (quoted key r) ('"' :: (s.toList ++ '"' :: text))
    = (findFrom (quoted key r) text).map (s.toList.length + 2 + ·)
  := by
  rw [findFrom, if_neg hne]
  have hpre : findFrom (quoted key r) (s.toList ++ '"' :: text)
      = (findFrom (quoted key r) ('"' :: text)).map (s.toList.length + ·) := findFrom_append hs _
  rw [hpre, findFrom, if_neg (not_prefix_of_separated hkey hsep), Option.map_map, Option.map_map]
  congr 1
  funext i
  simp only [Function.comp_apply]
  omega

/-- The search for a quoted key, with or without the beginning of its value, is one in the
list of strings. -/
theorem Quoted.findFrom_seek {key : String} {r : List Char} {p : V → Bool} {text : List Char}
    {strings : List (String × V)} (hkey : IsKey key)
    (hp : ∀ rest v, (key, v) ∈ strings → R rest v → (r <+: rest ↔ p v = true))
    (h : Quoted R text strings) :
  match seek key p strings with
  | none => findFrom (quoted key r) text = none
  | some (v, strings') => ∃ i rest, findFrom (quoted key r) text = some i
      ∧ text.drop i = quoted key rest ∧ r <+: rest ∧ R rest v ∧ Quoted R rest strings'
      ∧ Quoted R (text.drop i) ((key, v) :: strings')
  := by
  induction h with
  | nil => rfl
  | @char c text strings hc h ih =>
      have ih := ih hp
      have hnot : ¬ quoted key r <+: c :: text := fun hprefix =>
        hc (List.cons_prefix_cons.mp hprefix).1.symm
      rw [findFrom, if_neg hnot]
      split at ih
      · rw [ih, Option.map_none]
      · obtain ⟨i, rest, hi, hdrop, hrest⟩ := ih
        use i + 1, rest
        rw [hi, Option.map_some, List.drop_succ_cons]
        exact ⟨rfl, hdrop, hrest⟩
  | @string s v text strings hs hsep hv h ih =>
      have ih := ih fun rest w hw => hp rest w (List.mem_cons_of_mem _ hw)
      have hstring := Quoted.string hs hsep hv h
      rw [seek]
      by_cases hmatch : s = key ∧ p v = true
      · obtain ⟨rfl, hpv⟩ := hmatch
        have hr := (hp text v List.mem_cons_self hv).mpr hpv
        rw [if_pos ⟨rfl, hpv⟩]
        have hprefix : quoted s r <+: '"' :: (s.toList ++ '"' :: text) :=
          (List.prefix_cons_inj _).mpr ((prefix_append_quote_iff hs hs).mpr ⟨rfl, hr⟩)
        exact ⟨0, text, findFrom_of_prefix hprefix, rfl, hr, hv, h, hstring⟩
      · have hnot : ¬ quoted key r <+: '"' :: (s.toList ++ '"' :: text) := by
          rw [quoted, List.prefix_cons_inj, prefix_append_quote_iff hkey.quote hs]
          rintro ⟨heq, hr⟩
          obtain rfl := String.toList_inj.mp heq
          apply hmatch ⟨rfl, (hp text v List.mem_cons_self hv).mp hr⟩
        rw [if_neg hmatch, findFrom_string hkey hs hsep hnot]
        split at ih
        · rw [ih, Option.map_none]
        · obtain ⟨i, rest, hi, hdrop, hrest⟩ := ih
          have hplace : ('"' :: (s.toList ++ '"' :: text)).drop (s.toList.length + 2 + i)
              = text.drop i := by
            have hlen : ('"' :: (s.toList ++ ['"'])).length = s.toList.length + 2 := by
              rw [List.length_cons, List.length_append, List.length_singleton]
            rw [← List.drop_drop, List.append_cons, ← List.cons_append,
              List.drop_left' hlen]
          use s.toList.length + 2 + i, rest
          rw [hi, Option.map_some, hplace]
          exact ⟨rfl, hdrop, hrest⟩

/-- From the position on the text has these strings. -/
structure StringsAt (R : List Char → V → Prop) (text : List Char) (pos : ℕ)
    (strings : List (String × V)) : Prop where
  le_length : pos ≤ text.length
  isQuoted : Quoted R (text.drop pos) strings

theorem StringsAt.zero {text : List Char} {strings : List (String × V)}
    (h : Quoted R text strings) :
  StringsAt R text 0 strings
  := ⟨Nat.zero_le _, h⟩

/-- Moving on over characters that are no quotes. -/
theorem StringsAt.skip {text pre rest : List Char} {pos : ℕ} {strings : List (String × V)}
    (h : StringsAt R text pos strings) (hdrop : text.drop pos = pre ++ rest) (hpre : '"' ∉ pre) :
  StringsAt R text (pos + pre.length) strings
  := by
  constructor
  · have hlen := congrArg List.length hdrop
    have hle := h.le_length
    rw [List.length_drop, List.length_append] at hlen
    omega
  · rw [drop_add hdrop]
    have hquoted := h.isQuoted
    rw [hdrop] at hquoted
    apply hquoted.of_append hpre

/-- The same for `find`, which gives a position, and for the position behind the needle. -/
theorem StringsAt.find_seek {key : String} {r : List Char} {p : V → Bool} {text : List Char}
    {pos : ℕ} {strings : List (String × V)} (hkey : IsKey key)
    (hp : ∀ rest v, (key, v) ∈ strings → R rest v → (r <+: rest ↔ p v = true))
    (h : StringsAt R text pos strings) :
  match seek key p strings with
  | none => find (quoted key r) text pos = none
  | some (v, strings') => ∃ i rest, find (quoted key r) text pos = some i
      ∧ text.drop i = quoted key rest ∧ R rest v
      ∧ StringsAt R text i ((key, v) :: strings')
      ∧ ('"' ∉ r → StringsAt R text (i + (quoted key r).length) strings')
  := by
  have hfind := h.isQuoted.findFrom_seek hkey hp
  rw [find, if_pos h.le_length]
  split at hfind
  · rw [hfind, Option.map_none]
  · obtain ⟨i, rest, hi, hdrop, ⟨rest, rfl⟩, hv, hrest, hat⟩ := hfind
    rw [List.drop_drop] at hdrop hat
    have hpre : text.drop (pos + i) = quoted key [] ++ (r ++ rest) := by
      rw [hdrop, quoted, quoted, List.cons_append, List.append_assoc, List.singleton_append]
    have hlen := congrArg List.length hpre
    rw [List.length_drop, List.length_append] at hlen
    have hnonempty : 0 < (quoted key []).length := Nat.succ_pos _
    have hbehind : StringsAt R text (pos + i + (quoted key []).length) _ :=
      ⟨by omega, by rwa [drop_add hpre]⟩
    have hneedle : (quoted key r).length = (quoted key []).length + r.length := by
      simp only [quoted, List.length_cons, List.length_append, List.length_nil]
      omega
    use pos + i, r ++ rest
    rw [hi, Option.map_some]
    refine ⟨rfl, hdrop, hv, ⟨by omega, hat⟩, fun hr => ?_⟩
    rw [hneedle, ← Nat.add_assoc]
    apply hbehind.skip (drop_add hpre) hr

end Text
