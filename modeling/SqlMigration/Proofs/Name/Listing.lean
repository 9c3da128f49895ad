import SqlMigration.Alteration.Sql
import SqlMigration.Proofs.Name.Rendering

/-! # Lists of names, read back

Names that are written one after the other, with commas between them and without quotes. Main
statement: normal names are read back from such a list exactly when each of them is an identifier
as it stands.
-/

namespace SqlMigration.Name

open Token

/-- Whether a text is read as one identifier, without quotes. -/
def isUnquoted (s : Text) : Bool := spellsWord s && (Keyword.ofText? s).isNone

/-- The normal names of a list of identifiers with a comma between each two. -/
def list? : List Token → Option (List Text)
  | [] => none
  | [t] => if t.kind.isIdentifier then some [normalize t.text] else none
  | t :: u :: ts =>
      if t.kind.isIdentifier && u.kind = .comma then (list? ts).map (normalize t.text :: ·)
      else none

variable {s r : Text} {u : Token} {us : List Token} {start : Nat}

theorem read_unquoted (h : isUnquoted s) (hr : endsWord r) (start : Nat) :
    ∃ u stop, u.kind = .identifier ∧ u.text = s ∧
      read .unicode start (s ++ r) = u :: read .unicode stop r := by
  obtain ⟨hword, hkeyword⟩ := Bool.and_eq_true_iff.mp h
  have hkind : Kind.identifier = wordKind s := by
    rw [wordKind, Option.isNone_iff_eq_none.mp hkeyword]
  cases s with
  | nil => cases hword
  | cons c s =>
      exact read_of_stays (t := ⟨.identifier, c :: s, ⟨0, 0⟩⟩) rfl (stays_word hword hkind hr) start

theorem length_normalize_le (h : ∀ c ∈ s, Text.isSmall c) : (normalize s).length ≤ s.length := by
  have htrim : s.trim.Sublist s := Text.trimWhere_sublist _ _
  have hsmall : ∀ c ∈ s.trim, Text.isSmall c := fun c hc => h c (htrim.mem hc)
  rw [normalize, Text.lower_of_isSmall hsmall]
  exact ((settle_sublist _).trans htrim).length_le

theorem takeWhile_isNameChar (hr : ∀ c ∈ r.head?, c = ',') :
    (s ++ r).takeWhile (isNameChar .unicode) = s.takeWhile (isNameChar .unicode) := by
  have hcomma : r.takeWhile (isNameChar .unicode) = [] := by
    cases r with
    | nil => rfl
    | cons d r =>
        cases hr d rfl
        rfl
  rw [List.takeWhile_append, hcomma]
  split
  · rename_i hall
    rw [List.append_nil, (List.takeWhile_prefix _).eq_of_length hall]
  · rfl

/-- An identifier without delimiters ends before a comma, if not earlier. -/
theorem read_word {c : Char} (hquote : isQuote c = false) (hr : ∀ c ∈ r.head?, c = ',')
    (hread : read .unicode start (c :: s ++ r) = u :: us) (hname : u.kind.isIdentifier) :
    startsWord c ∧ u.text = c :: s.takeWhile (isNameChar .unicode) ∧ u.kind = wordKind u.text := by
  rw [List.cons_append, read_cons] at hread
  obtain ⟨hkind, htext⟩ : u.kind = (classify .unicode c (s ++ r)).1 ∧
      u.text = c :: (s ++ r).take (classify .unicode c (s ++ r)).2 := by
    cases hread
    exact ⟨rfl, rfl⟩
  have hnamed : isNamed (classify .unicode c (s ++ r)).1 :=
    Bool.or_eq_true_iff.mpr (.inr (hkind ▸ hname))
  obtain ⟨hc, hword⟩ := wordsWhole_classify c (s ++ r) hnamed hquote
  have htake : (s ++ r).take (s.takeWhile (isNameChar .unicode)).length =
      s.takeWhile (isNameChar .unicode) := by
    rw [List.take_append_of_le_length (List.takeWhile_prefix _).length_le]
    exact (List.prefix_iff_eq_take.mp (List.takeWhile_prefix _)).symm
  rw [hword, word, takeWhile_isNameChar hr] at hkind
  rw [hword, word, takeWhile_isNameChar hr, htake] at htext
  exact ⟨hc, htext, htext ▸ hkind⟩

/-- A normal name that is read as an identifier is one, also in front of a comma: it has no quotes
to hold anything but a word together. -/
theorem isUnquoted_of_read (hs : normalize s = s) (hr : ∀ c ∈ r.head?, c = ',')
    (hread : read .unicode start (s ++ r) = u :: us) (hname : u.kind.isIdentifier)
    (htext : normalize u.text = s) : isUnquoted s := by
  cases s with
  | nil =>
      cases r with
      | nil =>
          rw [List.nil_append, read_nil] at hread
          cases hread
      | cons c r =>
          cases hr c rfl
          rw [List.nil_append, read_cons] at hread
          cases hread
          cases hname
  | cons c s =>
      have hquote : isQuote c = false := (hs ▸ normal_normalize (c :: s)).isQuote_head rfl
      obtain ⟨hc, hword, hkind⟩ := read_word hquote hr hread hname
      have hrun : s.takeWhile (isNameChar .unicode) <+: s := List.takeWhile_prefix _
      -- the word is as long as its normal form, so it goes to the end of the name
      have hsmall : ∀ d ∈ u.text, Text.isSmall d := by
        intro d hd
        refine isSmall_of_mem_normalize (c :: s) d (hs.symm ▸ ?_)
        rw [hword] at hd
        rcases List.mem_cons.mp hd with rfl | hd
        · exact List.mem_cons_self
        · exact List.mem_cons_of_mem _ (hrun.mem hd)
      have hle := length_normalize_le hsmall
      rw [htext, hword, List.length_cons, List.length_cons] at hle
      have hwhole : s.takeWhile (isNameChar .unicode) = s :=
        hrun.eq_of_length (Nat.le_antisymm hrun.length_le (Nat.le_of_succ_le_succ hle))
      rw [hwhole] at hword
      rw [hkind, hword, wordKind_isIdentifier_iff] at hname
      rw [isUnquoted, spellsWord, hc, hname, Option.isNone_none, Bool.true_and, Bool.and_true]
      exact List.all_eq_true.mpr (List.takeWhile_eq_self_iff.mp hwhole)

theorem list?_cons_head {n : Text} {ns : List Text} (h : list? (u :: us) = some (n :: ns)) :
    u.kind.isIdentifier ∧ normalize u.text = n := by
  cases us with
  | nil =>
      obtain ⟨hname, hns⟩ := Option.ite_none_right_eq_some.mp h
      exact ⟨hname, (List.cons.inj (Option.some.inj hns)).1⟩
  | cons v us =>
      obtain ⟨hname, hns⟩ := Option.ite_none_right_eq_some.mp h
      obtain ⟨ms, -, hms⟩ := Option.map_eq_some_iff.mp hns
      exact ⟨(Bool.and_eq_true_iff.mp hname).1, (List.cons.inj hms).1⟩

/-- The first of several names is an identifier as it stands. -/
theorem isUnquoted_of_list? {n : Text} {ns : List Text} (hn : normalize n = n)
    (hr : ∀ c ∈ r.head?, c = ',')
    (h : list? (read .unicode start (n ++ r)) = some (n :: ns)) : isUnquoted n := by
  cases hread : read .unicode start (n ++ r) with
  | nil =>
      rw [hread] at h
      cases h
  | cons u us =>
      rw [hread] at h
      obtain ⟨hname, htext⟩ := list?_cons_head h
      exact isUnquoted_of_read hn hr hread hname htext

theorem list?_last {n : Text} (h : isUnquoted n) (hn : normalize n = n) (start : Nat) :
    list? (read .unicode start (n ++ [])) = some [n] := by
  obtain ⟨u, stop, hkind, htext, hread⟩ := read_unquoted h (r := []) rfl start
  have hname : u.kind.isIdentifier := hkind ▸ rfl
  rw [hread, read_nil, list?, if_pos hname, htext, hn]

theorem list?_comma {n : Text} (h : isUnquoted n) (hn : normalize n = n) (r : Text) (start : Nat) :
    ∃ stop, list? (read .unicode start (n ++ ',' :: r)) =
      (list? (read .unicode stop r)).map (n :: ·) := by
  obtain ⟨u, stop, hkind, htext, hread⟩ := read_unquoted h (r := ',' :: r) rfl start
  have hname : u.kind.isIdentifier := hkind ▸ rfl
  have hcomma : classify .unicode ',' r = (.comma, 0) := rfl
  refine ⟨stop + Text.byteLength [','], ?_⟩
  rw [hread, read_cons]
  simp only [hcomma, List.take_zero, List.drop_zero, list?, hname, htext, hn, decide_true,
    Bool.and_self, if_true]

/-- Normal names with commas between them are read as these names exactly when each of them is an
identifier as it stands. -/
theorem list?_keyList_iff {ns : List Text} (hne : ns ≠ []) (hns : ∀ n ∈ ns, normalize n = n)
    (start : Nat) :
    list? (read .unicode start (Alteration.keyList ns)) = some ns ↔ ∀ n ∈ ns, isUnquoted n := by
  induction ns generalizing start with
  | nil => exact absurd rfl hne
  | cons n ns ih =>
      obtain ⟨hn, hns⟩ := List.forall_mem_cons.mp hns
      rw [List.forall_mem_cons]
      cases ns with
      | nil =>
          have hlist : Alteration.keyList [n] = n ++ [] := by simp [Alteration.keyList]
          rw [hlist]
          exact ⟨fun h => ⟨isUnquoted_of_list? hn (by simp) h, by simp⟩,
            fun h => list?_last h.1 hn start⟩
      | cons m ns =>
          have hlist : Alteration.keyList (n :: m :: ns) =
              n ++ ',' :: Alteration.keyList (m :: ns) := by simp [Alteration.keyList]
          have hstep (h : isUnquoted n) :
              list? (read .unicode start (n ++ ',' :: Alteration.keyList (m :: ns))) =
                some (n :: m :: ns) ↔ ∀ n ∈ m :: ns, isUnquoted n := by
            obtain ⟨stop, hlist⟩ := list?_comma h hn (Alteration.keyList (m :: ns)) start
            rw [hlist, ← ih (List.cons_ne_nil m ns) hns stop]
            simp
          rw [hlist]
          constructor
          · intro h
            have hfirst := isUnquoted_of_list? hn (by simp) h
            exact ⟨hfirst, (hstep hfirst).mp h⟩
          · rintro ⟨hfirst, hrest⟩
            exact (hstep hfirst).mpr hrest

end SqlMigration.Name
