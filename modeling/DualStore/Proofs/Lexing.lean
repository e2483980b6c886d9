import DualStore.Grammar.Scan
import DualStore.Term.Check
import Mathlib.Data.List.DropRight
import Mathlib.Data.List.TakeDrop
import Mathlib.Data.List.TakeWhile

/-! How printed text is cut into tokens. A chunk of text cuts to its tokens whatever follows it
(`Token.CutsTo`), so chunks can be put together; a chunk that needs something after it, as words do,
ends with a blank. -/

namespace DualStore
namespace Token

variable {α β : Type} {cs cs' rest : List Char} {ts ts' : List Token} {t : Token} {c d : Char}

/-! ## Readings -/

/-- The reading succeeds with this value and leaves this rest. -/
def Gives {τ : Type} {input : List τ} (x : Option (Read α input)) (a : α) (rest : List τ) : Prop :=
  ∃ h, x = some ⟨a, rest, h⟩

theorem gives_readRun {p : Char → Bool} (hne : cs ≠ []) (hcs : ∀ c ∈ cs, p c = true)
    (hrest : ∀ d ∈ rest.head?, p d = false) : Gives (readRun p (cs ++ rest)) cs rest := by
  cases cs with
  | nil => exact absurd rfl hne
  | cons c cs =>
    have htail : ∀ c ∈ cs, p c = true := fun c hc => hcs c (List.mem_cons_of_mem _ hc)
    have hstop : rest.takeWhile p = [] ∧ rest.dropWhile p = rest := by
      cases rest with
      | nil => exact ⟨rfl, rfl⟩
      | cons d rest =>
        have hd : ¬ p d = true := by rw [hrest d rfl]; exact Bool.false_ne_true
        exact ⟨List.takeWhile_cons_of_neg hd, List.dropWhile_cons_of_neg hd⟩
    have htake : (cs ++ rest).takeWhile p = cs := by
      rw [List.takeWhile_append_of_pos htail, hstop.1, List.append_nil]
    have hdrop : (cs ++ rest).dropWhile p = rest := by
      rw [List.dropWhile_append_of_pos htail, hstop.2]
    simp only [List.cons_append, readRun, hcs c List.mem_cons_self, if_true, htake, hdrop]
    exact ⟨_, rfl⟩

/-! ## Chunks -/

theorem scan_eq (total : Nat) (cs : List Char) : scan total cs = match skipTrivia false cs with
    | [] => .ok []
    | c :: rest => match read (c :: rest) with
      | some r => (scan total r.rest).map (r.value :: ·)
      | none => .error ⟨problemAt c, total - byteCount (c :: rest)⟩ := by
  rw [scan]
  unfold next?
  split
  next fault h =>
    split at h
    · cases h
    next c rest hs =>
      rw [hs]
      dsimp only
      generalize read (c :: rest) = reading at h ⊢
      cases reading with
      | none =>
        cases h
        rfl
      | some r => cases h
  next h =>
    split at h
    next hs => rw [hs]
    next c rest hs => split at h <;> cases h
  next r h =>
    split at h
    · cases h
    next c rest hs =>
      rw [hs]
      dsimp only
      generalize read (c :: rest) = reading at h ⊢
      cases reading with
      | none => cases h
      | some r' =>
        cases h
        rfl

/-- The chunk `cs` is cut into `ts`, whatever follows it. -/
def CutsTo (cs : List Char) (ts : List Token) : Prop :=
  ∀ total rest, scan total (cs ++ rest) = (scan total rest).map (ts ++ ·)

theorem CutsTo.nil : CutsTo [] [] := fun total rest => by
  rw [List.nil_append]
  cases scan total rest <;> rfl

theorem CutsTo.append (h : CutsTo cs ts) (h' : CutsTo cs' ts') :
    CutsTo (cs ++ cs') (ts ++ ts') := fun total rest => by
  rw [List.append_assoc, h, h']
  cases scan total rest with
  | error fault => rfl
  | ok more => exact congrArg Except.ok (List.append_assoc ts ts' more).symm

theorem CutsTo.flatMap {f : α → List Char} {g : α → List Token} {l : List α}
    (h : ∀ a ∈ l, CutsTo (f a) (g a)) : CutsTo (l.flatMap f) (l.flatMap g) := by
  induction l with
  | nil => exact .nil
  | cons a l ih =>
    rw [List.flatMap_cons, List.flatMap_cons]
    exact (h a List.mem_cons_self).append (ih fun a ha => h a (List.mem_cons_of_mem _ ha))

/-- The chunk `cs` is cut into `ts` if a space or the end of the text follows it. -/
def CutsApart (cs : List Char) (ts : List Token) : Prop :=
  ∀ total rest, (∀ d ∈ rest.head?, d = ' ') →
    scan total (cs ++ rest) = (scan total rest).map (ts ++ ·)

theorem CutsTo.apart (h : CutsTo cs ts) : CutsApart cs ts := fun total rest _ => h total rest

theorem CutsApart.ofText {text : String} (h : CutsApart text.toList ts) :
    Token.ofText text = .ok ts := by
  have := h text.utf8ByteSize [] nofun
  rw [List.append_nil, scan_eq] at this
  rw [Token.ofText, scan_eq, this, scan_eq]
  exact congrArg Except.ok (List.append_nil ts)

/-- The text is over after the chunk. -/
theorem CutsTo.ofText {text : String} (h : CutsTo text.toList ts) : Token.ofText text = .ok ts :=
  h.apart.ofText

theorem scan_blank (total : Nat) (h : Text.isBlank c = true) (rest : List Char) :
    scan total (c :: rest) = scan total rest := by
  have hc : c ≠ '#' := by
    rintro rfl
    exact absurd h (by decide)
  have hskip : skipTrivia false (c :: rest) = skipTrivia false rest := by
    rw [skipTrivia, if_neg Bool.false_ne_true, if_neg hc, if_pos h]
  rw [scan_eq, hskip, ← scan_eq]

theorem CutsTo.blank (h : Text.isBlank c = true) : CutsTo [c] [] := fun total rest => by
  rw [List.singleton_append, scan_blank total h]
  cases scan total rest <;> rfl

theorem CutsTo.blanks (h : ∀ c ∈ cs, Text.isBlank c = true) : CutsTo cs [] := by
  induction cs with
  | nil => exact .nil
  | cons c cs ih =>
    have hc : CutsTo [c] [] := .blank (h c List.mem_cons_self)
    exact hc.append (ih fun c hc => h c (List.mem_cons_of_mem _ hc))

theorem CutsApart.space (h : CutsApart cs ts) : CutsTo (cs ++ [' ']) ts := fun total rest => by
  have hspace : ∀ d ∈ (' ' :: rest).head?, d = ' ' := fun d hd => (Option.some.inj hd).symm
  rw [List.append_assoc, List.singleton_append, h total _ hspace, scan_blank total (by decide)]

/-- The chunk `cs` is cut into `ts` if `d` follows it. -/
def CutsBefore (d : Char) (cs : List Char) (ts : List Token) : Prop :=
  ∀ total rest, scan total (cs ++ d :: rest) = (scan total (d :: rest)).map (ts ++ ·)

theorem CutsBefore.append (h : CutsBefore d cs ts) (h' : CutsTo (d :: cs') ts') :
    CutsTo (cs ++ d :: cs') (ts ++ ts') := fun total rest => by
  have hnext := h' total rest
  rw [List.cons_append] at hnext
  rw [List.append_assoc, List.cons_append, h, hnext]
  cases scan total rest with
  | error fault => rfl
  | ok more => exact congrArg Except.ok (List.append_assoc ts ts' more).symm

theorem CutsBefore.space (h : CutsBefore ' ' cs ts) : CutsTo (cs ++ [' ']) ts := by
  have := h.append (CutsTo.blank (c := ' ') (by decide))
  rwa [List.append_nil] at this

/-- A token is cut off where it can be read. -/
theorem scan_of_gives (total : Nat) (cs : List Char) (hb : Text.isBlank c = false) (hc : c ≠ '#')
    (h : Gives (read (c :: cs)) t rest) :
    scan total (c :: cs) = (scan total rest).map (t :: ·) := by
  have hskip : skipTrivia false (c :: cs) = c :: cs := by
    rw [skipTrivia, if_neg Bool.false_ne_true, if_neg hc, hb, if_neg Bool.false_ne_true]
  obtain ⟨hlt, hread⟩ := h
  rw [scan_eq, hskip]
  dsimp only
  rw [hread]

theorem CutsTo.token (hb : Text.isBlank c = false) (hc : c ≠ '#')
    (h : ∀ rest, Gives (read (c :: cs ++ rest)) t rest) : CutsTo (c :: cs) [t] :=
  fun total rest => scan_of_gives total _ hb hc (h rest)

/-- A token that is read up to a blank. -/
theorem CutsTo.token_blank (cs : List Char) (hb : Text.isBlank c = false) (hc : c ≠ '#')
    (hd : Text.isBlank d = true)
    (h : ∀ rest, Gives (read (c :: cs ++ d :: rest)) t (d :: rest)) :
    CutsTo (c :: (cs ++ [d])) [t] := fun total rest => by
  have hassoc : c :: (cs ++ [d]) ++ rest = c :: (cs ++ d :: rest) := by simp
  rw [hassoc, scan_of_gives total (cs ++ d :: rest) hb hc (h rest), scan_blank total hd]
  rfl

/-! ## Marks -/

theorem cutsTo_openBrace : CutsTo ['\x7b'] [.punct '\x7b'] :=
  .token (by decide) (by decide) fun _ => ⟨_, rfl⟩

theorem cutsTo_closeBrace : CutsTo ['\x7d'] [.punct '\x7d'] :=
  .token (by decide) (by decide) fun _ => ⟨_, rfl⟩

theorem cutsTo_openParen : CutsTo ['('] [.punct '('] :=
  .token (by decide) (by decide) fun _ => ⟨_, rfl⟩

theorem cutsTo_closeParen : CutsTo [')'] [.punct ')'] :=
  .token (by decide) (by decide) fun _ => ⟨_, rfl⟩

theorem cutsTo_star : CutsTo ['*'] [.punct '*'] :=
  .token (by decide) (by decide) fun _ => ⟨_, rfl⟩

theorem cutsTo_semicolon : CutsTo [';'] [.punct ';'] :=
  .token (by decide) (by decide) fun _ => ⟨_, rfl⟩

/-- A point at the end of a line cannot start a number. -/
theorem cutsTo_point : CutsTo ['.', '\n'] [.punct '.'] :=
  .token_blank [] (by decide) (by decide) (by decide) fun _ => ⟨_, rfl⟩

theorem cutsTo_datatypeMark : CutsTo ['^', '^'] [.datatypeMark] :=
  .token (by decide) (by decide) fun rest =>
    ⟨by simp only [List.length_append, List.length_cons, List.length_nil]; omega, rfl⟩

/-! ## IRIs -/

private theorem gives_readIriBody (h : ∀ c ∈ cs, isIriChar c = true) (rest : List Char) :
    Gives (readIriBody (cs ++ '>' :: rest)) cs rest := by
  induction cs with
  | nil =>
    rw [List.nil_append, readIriBody, if_pos rfl]
    exact ⟨_, rfl⟩
  | cons c cs ih =>
    have hc := h c List.mem_cons_self
    have hclose : c ≠ '>' := by rintro rfl; exact absurd hc (by decide)
    have hescape : c ≠ '\x5c' := by rintro rfl; exact absurd hc (by decide)
    obtain ⟨hlt, hbody⟩ := ih fun c hc => h c (List.mem_cons_of_mem _ hc)
    rw [List.cons_append, readIriBody, if_neg hclose, if_neg hescape, if_pos hc, hbody]
    exact ⟨_, rfl⟩

theorem cutsTo_iri (h : ∀ c ∈ cs, isIriChar c = true) :
    CutsTo ('<' :: (cs ++ ['>'])) [.iri (String.ofList cs)] :=
  .token (by decide) (by decide) fun rest => by
    obtain ⟨hlt, hbody⟩ := gives_readIriBody h rest
    have hassoc : '<' :: (cs ++ ['>']) ++ rest = '<' :: (cs ++ '>' :: rest) := by simp
    rw [hassoc, read, readIri, hbody]
    exact ⟨_, rfl⟩

/-! ## Names with points -/

private theorem readRun_eq_none {p : Char → Bool} (h : ∀ d ∈ cs.head?, p d = false) :
    readRun p cs = none := by
  cases cs with
  | nil => rfl
  | cons d cs => rw [readRun, if_neg (by rw [h d rfl]; exact Bool.false_ne_true)]

/-- Runs of name characters with points between them. -/
inductive Dotted : List Char → Prop
  | run {name : List Char} (hne : name ≠ []) (h : ∀ c ∈ name, isNameChar c = true) : Dotted name
  | append {name dots more : List Char} (hne : name ≠ []) (h : ∀ c ∈ name, isNameChar c = true)
    (hdots : dots ≠ []) (hpoint : ∀ c ∈ dots, c = '.') (hmore : Dotted more) :
    Dotted (name ++ (dots ++ more))

theorem Dotted.exists_head (h : Dotted cs) : ∃ c cs', cs = c :: cs' ∧ isNameChar c = true := by
  cases h with
  | run hne h | append hne h =>
    obtain ⟨c, name, rfl⟩ := List.exists_cons_of_ne_nil hne
    exact ⟨c, _, rfl, h c List.mem_cons_self⟩

private theorem isNameChar_of_head {d : Char} (h : ∀ d ∈ (rest.dropWhile (· == '.')).head?,
    isNameChar d = false) (hd : d ∈ rest.head?) : isNameChar d = false := by
  cases rest with
  | nil => cases hd
  | cons e rest =>
    cases hd
    by_cases he : d = '.'
    · subst he
      decide
    · rw [List.dropWhile_cons_of_neg (by simpa using he)] at h
      exact h d rfl

/-- A name ends before points that no name follows. -/
theorem Dotted.gives_readDotted (h : Dotted cs)
    (hrest : ∀ d ∈ (rest.dropWhile (· == '.')).head?, isNameChar d = false) :
    Gives (readDotted (cs ++ rest)) cs rest := by
  induction h with
  | run hne h =>
    obtain ⟨hlt, hrun⟩ := gives_readRun hne h fun d hd => isNameChar_of_head hrest hd
    rw [readDotted, hrun]
    dsimp only
    cases hdots : readRun (· == '.') rest with
    | none => exact ⟨_, rfl⟩
    | some dots =>
      have hdropped : dots.rest = rest.dropWhile (· == '.') := by
        cases rest with
        | nil => cases hdots
        | cons d rest =>
          rw [readRun, Option.ite_none_right_eq_some] at hdots
          obtain ⟨hd, hdots⟩ := hdots
          cases hdots
          exact (List.dropWhile_cons_of_pos (p := (· == '.')) hd).symm
      have hnone : readDotted dots.rest = none := by
        rw [readDotted, hdropped, readRun_eq_none hrest]
      simp only [hnone]
      exact ⟨_, rfl⟩
  | @append name dots more hne h hdots hpoint hmore ih =>
    obtain ⟨hlt, hread⟩ := ih
    obtain ⟨d, dots', rfl⟩ := List.exists_cons_of_ne_nil hdots
    obtain ⟨c, more', rfl, hc⟩ := hmore.exists_head
    have hafter : ∀ e ∈ (c :: more' ++ rest).head?, (e == '.') = false := by
      rintro e he
      obtain rfl := Option.some.inj he
      exact beq_false_of_ne fun he => absurd (he ▸ hc) (by decide)
    have hpoints : ∀ e ∈ ((d :: dots') ++ (c :: more' ++ rest)).head?, isNameChar e = false := by
      rintro e he
      obtain rfl := Option.some.inj he
      exact hpoint d List.mem_cons_self ▸ by decide
    obtain ⟨hlt₁, hrun⟩ := gives_readRun hne h hpoints
    obtain ⟨hlt₂, hpoints⟩ := gives_readRun (List.cons_ne_nil d dots')
      (fun e he => beq_iff_eq.mpr (hpoint e he)) hafter
    rw [List.append_assoc, List.append_assoc, readDotted, hrun]
    dsimp only
    rw [hpoints]
    dsimp only
    rw [hread]
    exact ⟨by omega, by simp [Read.map, Read.andThen, Read.widen]⟩

private theorem exists_run (p : Char → Bool) (cs : List Char) : ∃ run rest, cs = run ++ rest ∧
    (∀ d ∈ run, p d = true) ∧ ∀ d ∈ rest.head?, p d = false := by
  refine ⟨cs.takeWhile p, cs.dropWhile p, List.takeWhile_append_dropWhile.symm,
    fun d hd => List.mem_takeWhile_imp hd, fun d hd => ?_⟩
  have := List.head?_dropWhile_not p cs
  rwa [Option.mem_def.mp hd] at this

/-- Names and points that start and end with a name. -/
theorem dotted_of_ends (h : ∀ c ∈ cs, isNameChar c = true ∨ c = '.') (hne : cs ≠ [])
    (hhead : ∀ d ∈ cs.head?, d ≠ '.') (hlast : ∀ d ∈ cs.getLast?, d ≠ '.') : Dotted cs := by
  -- the first run and the points after it are cut off
  induction hn : cs.length using Nat.strong_induction_on generalizing cs with
  | _ n ih =>
    obtain ⟨c, cs, rfl⟩ := List.exists_cons_of_ne_nil hne
    have hc : isNameChar c = true := (h c List.mem_cons_self).resolve_right (hhead c rfl)
    obtain ⟨name, rest, rfl, hname, hrest⟩ := exists_run isNameChar cs
    have hname : ∀ d ∈ c :: name, isNameChar d = true := List.forall_mem_cons.mpr ⟨hc, hname⟩
    cases rest with
    | nil => exact .run hne (by rwa [List.append_nil])
    | cons e rest =>
      have hend : isNameChar e = false := hrest e rfl
      have he : e = '.' := (h e (by simp)).resolve_left (by rw [hend]; exact Bool.false_ne_true)
      obtain ⟨dots, more, rfl, hdots, hmore⟩ := exists_run (· == '.') rest
      have hpoint : ∀ d ∈ e :: dots, d = '.' :=
        List.forall_mem_cons.mpr ⟨he, fun d hd => beq_iff_eq.mp (hdots d hd)⟩
      have hmne : more ≠ [] := by
        rintro rfl
        rw [List.append_nil, ← List.cons_append,
          List.getLast?_append_of_ne_nil _ (List.cons_ne_nil e dots)] at hlast
        exact hlast _ (List.getLast?_eq_some_getLast (List.cons_ne_nil e dots))
          (hpoint _ (List.getLast_mem _))
      rw [← List.cons_append, ← List.cons_append, ← List.append_assoc,
        List.getLast?_append_of_ne_nil _ hmne] at hlast
      have hlt : more.length < n := by
        subst hn
        simp only [List.length_cons, List.length_append]
        omega
      have hdotted : Dotted more := ih more.length hlt (fun d hd => h d (by simp [hd])) hmne
        (fun d hd => ne_of_beq_false (hmore d hd)) hlast rfl
      have := Dotted.append (List.cons_ne_nil c name) hname (List.cons_ne_nil e dots) hpoint hdotted
      simpa using this

private theorem isNameChar_of_isLabelChar {c : Char} (h : Term.isLabelChar c = true) :
    isNameChar c = true ∨ c = '.' := by
  simp only [Term.isLabelChar, Bool.or_eq_true, decide_eq_true_eq] at h
  rcases h with ((h | rfl) | rfl) | rfl
  · refine .inl ?_
    have hlt : c.toNat < 0x80 := Text.toNat_lt_of_isAlphanum h
    rw [isNameChar, Text.isLetterOrNumber, if_pos hlt, h]
    rfl
  · exact .inl (by decide)
  · exact .inl (by decide)
  · exact .inr rfl

private theorem gives_point (h : ∀ d ∈ cs.head?, d.isDigit = false) :
    Gives (read ('.' :: cs)) (.punct '.') cs := by
  have hspan : cs.span Char.isDigit = ([], cs) := by
    cases cs with
    | nil => rfl
    | cons d cs =>
      have hd : ¬ d.isDigit = true := by rw [h d rfl]; exact Bool.false_ne_true
      rw [List.span_eq_takeWhile_dropWhile, List.takeWhile_cons_of_neg hd,
        List.dropWhile_cons_of_neg hd]
  have hspan' : ('.' :: cs).span Char.isDigit = ([], '.' :: cs) := rfl
  have hmantissa : splitMantissa? ('.' :: cs) = none := by
    simp only [splitMantissa?, hspan', hspan]
    rfl
  have hdecimal : splitDecimal? ('.' :: cs) = none := by
    simp only [splitDecimal?, hspan', hspan]
    rfl
  have hinteger : splitInteger? ('.' :: cs) = none := by
    simp only [splitInteger?, hspan']
    rfl
  have hsign : splitSign ('.' :: cs) = ([], '.' :: cs) := rfl
  have hnumber : readNumber ('.' :: cs) = none := by
    simp only [readNumber, splitNumber?, hsign, splitDouble?, hmantissa, hdecimal, hinteger,
      Option.bind_none]
  have hread : read ('.' :: cs) = (readNumber ('.' :: cs) <|> readPunct ('.' :: cs)) := rfl
  rw [hread, hnumber]
  exact ⟨_, rfl⟩

/-- Points that nothing but a space follows are tokens of their own. -/
private theorem scan_points (total : Nat) (h : ∀ c ∈ cs, c = '.')
    (hrest : ∀ d ∈ rest.head?, d = ' ') :
    scan total (cs ++ rest) = (scan total rest).map (cs.map punct ++ ·) := by
  induction cs with
  | nil => cases hscan : scan total rest <;> simp [hscan, Except.map]
  | cons c cs ih =>
    obtain ⟨rfl, hcs⟩ := List.forall_mem_cons.mp h
    have hnext : ∀ d ∈ (cs ++ rest).head?, d.isDigit = false := by
      intro d hd
      cases cs with
      | nil => exact hrest d hd ▸ by decide
      | cons e cs =>
        obtain rfl := Option.some.inj hd
        exact hcs e List.mem_cons_self ▸ by decide
    rw [List.cons_append, scan_of_gives total _ (by decide) (by decide) (gives_point hnext),
      ih hcs]
    cases scan total rest <;> rfl

/-- The tokens of a blank node's label: points at its end are not part of the name. -/
def labelTokens (label : List Char) : List Token :=
  .blank (String.ofList (label.rdropWhile (· == '.'))) ::
    (label.rtakeWhile (· == '.')).map .punct

private theorem eq_point_of_mem {label : List Char} (h : d ∈ label.rtakeWhile (· == '.')) :
    d = '.' := by
  have : (d == '.') = true := List.mem_rtakeWhile_imp (p := (· == '.')) h
  exact beq_iff_eq.mp this

/-- A label without the points at its end is a name. -/
private theorem dotted_of_isLabel {label : List Char} (h : Term.isLabel label = true) :
    Dotted (label.rdropWhile (· == '.')) := by
  obtain ⟨c, l, rfl⟩ : ∃ c l, label = c :: l := by
    cases label with
    | nil => cases h
    | cons c l => exact ⟨c, l, rfl⟩
  simp only [Term.isLabel, Bool.and_eq_true, bne_iff_ne, List.all_eq_true] at h
  obtain ⟨⟨hc, -⟩, hall⟩ := h
  have hsplit : (c :: l).rdropWhile (· == '.') ++ (c :: l).rtakeWhile (· == '.') = c :: l :=
    List.rdropWhile_append_rtakeWhile
  have hne : (c :: l).rdropWhile (· == '.') ≠ [] := fun hnil => by
    have := List.rdropWhile_eq_nil_iff.mp hnil c List.mem_cons_self
    exact hc (beq_iff_eq.mp this)
  refine dotted_of_ends (fun d hd => isNameChar_of_isLabelChar (hall d ?_)) hne ?_ ?_
  · exact hsplit ▸ List.mem_append_left _ hd
  · intro d hd
    rw [← List.head?_append_of_ne_nil _ hne, hsplit] at hd
    exact Option.some.inj hd ▸ hc
  · intro d hd
    rw [List.getLast?_eq_some_getLast hne] at hd
    have hlast := List.rdropWhile_last_not _ _ hne
    rw [Option.some.inj hd] at hlast
    exact fun he => hlast (beq_iff_eq.mpr he)

theorem cutsApart_label (h : Term.isLabel cs = true) :
    CutsApart ('_' :: ':' :: cs) (labelTokens cs) := fun total rest hrest => by
  have hsplit : cs.rdropWhile (· == '.') ++ cs.rtakeWhile (· == '.') = cs :=
    List.rdropWhile_append_rtakeWhile
  have hdrop : (cs.rtakeWhile (· == '.') ++ rest).dropWhile (· == '.') =
      rest.dropWhile (· == '.') :=
    List.dropWhile_append_of_pos fun d hd => beq_iff_eq.mpr (eq_point_of_mem hd)
  have hend : ∀ d ∈ ((cs.rtakeWhile (· == '.') ++ rest).dropWhile (· == '.')).head?,
      isNameChar d = false := by
    rw [hdrop]
    cases rest with
    | nil => exact nofun
    | cons d rest =>
      obtain rfl := hrest d rfl
      exact fun e he => Option.some.inj he ▸ by decide
  obtain ⟨hlt, hread⟩ := (dotted_of_isLabel h).gives_readDotted hend
  have hblank : Gives (read ('_' :: ':' :: (cs.rdropWhile (· == '.') ++
      (cs.rtakeWhile (· == '.') ++ rest)))) (.blank (String.ofList (cs.rdropWhile (· == '.'))))
        (cs.rtakeWhile (· == '.') ++ rest) := by
    rw [read, readBlank, hread]
    exact ⟨_, rfl⟩
  have hscan := scan_of_gives total _ (by decide) (by decide) hblank
  rw [← List.append_assoc, hsplit,
    scan_points total (fun d hd => eq_point_of_mem hd) hrest] at hscan
  rw [List.cons_append, List.cons_append, hscan, labelTokens]
  cases scan total rest <;> rfl

private theorem isNameChar_of_isLetter (h : Text.isLetter c = true) : isNameChar c = true := by
  have hor : Text.isLetterOrNumber c = true := by
    rw [Text.isLetter] at h
    rw [Text.isLetterOrNumber]
    split at h
    next hlt => rw [if_pos hlt, Char.isAlphanum, h, Bool.true_or]
    next hlt => rw [if_neg hlt, h, Bool.true_or]
  rw [isNameChar, hor]
  rfl

/-- Words end where no name goes on. What else can start with the first letter of a word is a
name. -/
theorem cutsBefore_word (c : Char) (cs : List Char)
    (hread : ∀ cs, read (c :: cs) = (readWord (c :: cs) <|> readPunct (c :: cs)))
    (hb : Text.isBlank c = false) (h : (c :: cs).all Text.isLetter = true)
    (hname : isNameChar d = false) (hpoint : d ≠ '.') (hcolon : d ≠ ':') :
    CutsBefore d (c :: cs) [.word (String.ofList (c :: cs))] := fun total rest => by
  have h := List.all_eq_true.mp h
  have hletter := h c List.mem_cons_self
  have hc : c ≠ '#' := by
    rintro rfl
    exact absurd hletter (by decide)
  have hend : ∀ e ∈ ((d :: rest).dropWhile (· == '.')).head?, isNameChar e = false := by
    rw [List.dropWhile_cons_of_neg (by simpa using hpoint)]
    exact fun e he => Option.some.inj he ▸ hname
  have hword : Dotted (c :: cs) :=
    .run (List.cons_ne_nil c cs) fun d hd => isNameChar_of_isLetter (h d hd)
  have hdotted : Gives (readDotted (c :: (cs ++ d :: rest))) (c :: cs) (d :: rest) :=
    hword.gives_readDotted hend
  have hlocal : readLocal (c :: cs) (d :: rest) = none :=
    readLocal.eq_2 _ _ fun _ he => hcolon (List.cons.inj he).1
  obtain ⟨hlt, hdotted⟩ := hdotted
  refine scan_of_gives total (cs ++ d :: rest) hb hc ?_
  rw [hread, readWord, if_pos hletter, hdotted]
  simp only [Option.map_some, hlocal]
  exact ⟨_, rfl⟩

theorem cutsTo_word (c : Char) (cs : List Char)
    (hread : ∀ cs, read (c :: cs) = (readWord (c :: cs) <|> readPunct (c :: cs)))
    (hb : Text.isBlank c = false) (h : (c :: cs).all Text.isLetter = true) :
    CutsTo (c :: (cs ++ [' '])) [.word (String.ofList (c :: cs))] :=
  (cutsBefore_word c cs hread hb h (by decide) (by decide) (by decide)).space

theorem cutsBefore_var {name : List Char} (hne : name ≠ []) (h : name.all isNameChar = true)
    (hd : isNameChar d = false) :
    CutsBefore d ('?' :: name) [.var (String.ofList name)] := fun total rest => by
  refine scan_of_gives total (name ++ d :: rest) (by decide) (by decide) ?_
  have hend : ∀ e ∈ (d :: rest).head?, isNameChar e = false := fun e he =>
    Option.some.inj he ▸ hd
  obtain ⟨hlt, hrun⟩ := gives_readRun hne (List.all_eq_true.mp h) hend
  rw [read, readVar, if_pos (.inl rfl), hrun]
  exact ⟨_, rfl⟩

theorem cutsApart_language (hne : cs ≠ []) (h : ∀ c ∈ cs, isLanguageChar c = true) :
    CutsApart ('@' :: cs) [.language (String.ofList cs)] := fun total rest hrest => by
  refine scan_of_gives total _ (by decide) (by decide) ?_
  have hspace : ∀ d ∈ rest.head?, isLanguageChar d = false := fun d hd => hrest d hd ▸ by decide
  obtain ⟨hlt, hrun⟩ := gives_readRun hne h hspace
  rw [List.append_eq, read, readLanguage, hrun]
  exact ⟨_, rfl⟩

/-! ## Strings -/

private theorem gives_readShortBody_plain {a : List Char} (hq : c ≠ '\x22') (hb : c ≠ '\x5c')
    (hn : c ≠ '\n') (hr : c ≠ '\r') (h : Gives (readShortBody '\x22' cs) a rest) :
    Gives (readShortBody '\x22' (c :: cs)) (c :: a) rest := by
  obtain ⟨hlt, hbody⟩ := h
  rw [readShortBody, if_neg hq, if_neg hb, if_neg (not_or.mpr ⟨hn, hr⟩), hbody]
  exact ⟨_, rfl⟩

private theorem gives_readShortBody_escape {a : List Char} (he : Gives (readEscape cs) c cs')
    (h : Gives (readShortBody '\x22' cs') a rest) :
    Gives (readShortBody '\x22' ('\x5c' :: cs)) (c :: a) rest := by
  obtain ⟨hlt, hescape⟩ := he
  obtain ⟨hlt', hbody⟩ := h
  rw [readShortBody, if_neg (by decide), if_pos rfl, hescape]
  dsimp only
  rw [hbody]
  exact ⟨_, rfl⟩

/-- The number of a control character is read back from its four digits. -/
private theorem codeDigits_spec : ∀ n < 160, (Term.codeDigits n).length = 4 ∧
    Text.hexValue? (Term.codeDigits n) = some n := by decide +kernel

private theorem gives_readEscape_control (h : Text.isControl c = true) (cs : List Char) :
    Gives (readEscape ('u' :: (Term.codeDigits c.toNat ++ cs))) c cs := by
  have hlt : c.toNat < 160 := by
    simp only [Text.isControl, Bool.or_eq_true, Bool.and_eq_true, decide_eq_true_eq] at h
    omega
  obtain ⟨hlen, hvalue⟩ := codeDigits_spec _ hlt
  have htake : (Term.codeDigits c.toNat ++ cs).take 4 = Term.codeDigits c.toNat :=
    List.take_left' hlen
  have hdrop : (Term.codeDigits c.toNat ++ cs).drop 4 = cs := List.drop_left' hlen
  have hchar : c.toNat.isValidChar := c.valid
  rw [readEscape, if_pos (.inl rfl), readNumbered]
  simp only [if_true, htake, hlen, hvalue, Option.bind_some]
  rw [if_neg (by decide), if_pos hchar]
  refine ⟨by simp only [List.length_cons, List.length_append]; omega, ?_⟩
  simp only [Read.past, Rest.drop, hdrop, Char.ofNat_toNat]

private theorem gives_readShortBody (cs rest : List Char) :
    Gives (readShortBody '\x22' (cs.flatMap Term.escape ++ '\x22' :: rest)) cs rest := by
  induction cs with
  | nil =>
    rw [List.flatMap_nil, List.nil_append, readShortBody, if_pos rfl]
    exact ⟨_, rfl⟩
  | cons c cs ih =>
    rw [List.flatMap_cons, List.append_assoc]
    by_cases hq : c = '\x22'
    · subst hq
      exact gives_readShortBody_escape ⟨_, rfl⟩ ih
    by_cases hb : c = '\x5c'
    · subst hb
      exact gives_readShortBody_escape ⟨_, rfl⟩ ih
    by_cases hn : c = '\n'
    · subst hn
      exact gives_readShortBody_escape ⟨_, rfl⟩ ih
    by_cases hr : c = '\r'
    · subst hr
      exact gives_readShortBody_escape ⟨_, rfl⟩ ih
    by_cases ht : c = '\t'
    · subst ht
      exact gives_readShortBody_escape ⟨_, rfl⟩ ih
    rw [Term.escape, if_neg hq, if_neg hb, if_neg hn, if_neg hr, if_neg ht]
    by_cases hc : Text.isControl c = true
    · rw [if_pos hc]
      exact gives_readShortBody_escape (gives_readEscape_control hc _) ih
    · rw [if_neg hc]
      exact gives_readShortBody_plain hq hb hn hr ih

/-- What stands for a character of a string does not start with a quote. -/
private theorem exists_escape (c : Char) : ∃ d l, Term.escape c = d :: l ∧ d ≠ '\x22' := by
  unfold Term.escape
  split
  · exact ⟨_, _, rfl, by decide⟩
  next hq =>
    repeat' split
    all_goals first | exact ⟨_, _, rfl, by decide⟩ | exact ⟨c, _, rfl, hq⟩

private theorem not_isPrefixOf_quotes (cs : List Char) (h : rest.head? ≠ some '\x22') :
    ['\x22', '\x22'].isPrefixOf (cs.flatMap Term.escape ++ '\x22' :: rest) = false := by
  cases cs with
  | nil =>
    cases rest with
    | nil => rfl
    | cons d rest =>
      have hd : '\x22' ≠ d := fun he => h (congrArg some he.symm)
      simp [List.isPrefixOf, hd]
  | cons c cs =>
    obtain ⟨d, l, he, hd⟩ := exists_escape c
    have hd : '\x22' ≠ d := hd.symm
    simp [List.flatMap_cons, he, List.isPrefixOf, hd]

/-- A string that no quote follows. Two quotes in a row are an empty string then. -/
theorem scan_string (total : Nat) (cs : List Char) (h : rest.head? ≠ some '\x22') :
    scan total ('\x22' :: (cs.flatMap Term.escape ++ '\x22' :: rest)) =
      (scan total rest).map (.string (String.ofList cs) :: ·) := by
  refine scan_of_gives total _ (by decide) (by decide) ?_
  have hshort := not_isPrefixOf_quotes cs h
  obtain ⟨hlt, hbody⟩ := gives_readShortBody cs rest
  rw [read, readString]
  rw [if_pos (.inl rfl), hshort, if_neg Bool.false_ne_true, hbody]
  exact ⟨_, rfl⟩

end Token
end DualStore
