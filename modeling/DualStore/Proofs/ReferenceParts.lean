import DualStore.Grammar.Reference

/-! The parts of a reference: scheme, authority, path, query and fragment. Each text is put together
from exactly one choice of well-formed parts (`Parts.isOf_iff`). -/

namespace DualStore
namespace Reference

variable {cs rest before : List Char} {c : Char}

/-! ## Marks -/

/-- A part with the mark in front of it, if the part is there. -/
def marked (mark : List Char) : Option (List Char) → List Char
  | none => []
  | some part => mark ++ part

/-- A scheme with its colon, if there is one. -/
def schemed : Option (List Char) → List Char
  | none => []
  | some scheme => scheme ++ [':']

/-- What stands before the first of some characters, and what stands after it if it is there. -/
def cut (c : Char) (cs : List Char) : List Char × Option (List Char) :=
  match Text.splitAt? (· = c) cs with
  | none => (cs, none)
  | some (before, after) => (before, some after)

theorem cut_spec (c : Char) (cs : List Char) :
    c ∉ (cut c cs).1 ∧ (cut c cs).1 ++ marked [c] (cut c cs).2 = cs := by
  rw [cut]
  cases h : Text.splitAt? (· = c) cs with
  | none =>
    have hall := Text.splitAt?_eq_none_iff.mp h
    exact ⟨fun hc => of_decide_eq_false (hall c hc) rfl, List.append_nil cs⟩
  | some parts =>
    obtain ⟨d, hd, hcs, hbefore⟩ := Text.splitAt?_eq_some h
    obtain rfl : d = c := of_decide_eq_true hd
    exact ⟨fun hc => of_decide_eq_false (hbefore d hc) rfl, hcs.symm⟩

/-- A text is cut at the first mark. -/
theorem cut_append (h : c ∉ before) (after : Option (List Char)) :
    cut c (before ++ marked [c] after) = (before, after) := by
  have hno : ∀ d ∈ before, decide (d = c) = false := fun d hd =>
    decide_eq_false fun hdc => h (hdc ▸ hd)
  rw [cut]
  cases after with
  | none => rw [marked, List.append_nil, Text.splitAt?_eq_none_iff.mpr hno]
  | some after =>
    have hsplit := Text.splitAt?_append_cons (p := (· = c)) (decide_eq_true rfl) hno after
    rw [marked, List.singleton_append, hsplit]

/-! ## Schemes -/

theorem not_mem_of_isScheme (h : Term.isScheme cs = true) (hc : c ∈ cs) :
    c ∉ [':', '/', '?', '#'] := by
  have hchar : (c.isAlphanum || c = '+' || c = '-' || c = '.') = true := by
    cases cs with
    | nil => cases hc
    | cons d cs =>
      obtain ⟨hd, hcs⟩ := Bool.and_eq_true_iff.mp h
      rcases List.mem_cons.mp hc with rfl | hc
      · rw [Char.isAlphanum, hd]
        rfl
      · exact List.all_eq_true.mp hcs c hc
  intro hmem
  have hall : ∀ d ∈ [':', '/', '?', '#'],
      (d.isAlphanum || d = '+' || d = '-' || d = '.') = false := by simp
  rw [hall c hmem] at hchar
  cases hchar

theorem hasScheme_iff : hasScheme cs = true ↔
    ∃ scheme rest, cs = scheme ++ ':' :: rest ∧ Term.isScheme scheme = true := by
  constructor
  · intro h
    rw [hasScheme] at h
    cases hsplit : Text.splitAt? (· = ':') cs with
    | none =>
      rw [hsplit] at h
      cases h
    | some parts =>
      rw [hsplit] at h
      obtain ⟨d, hd, hcs, -⟩ := Text.splitAt?_eq_some hsplit
      obtain rfl : d = ':' := of_decide_eq_true hd
      exact ⟨_, _, hcs, h⟩
  · rintro ⟨scheme, rest, rfl, h⟩
    have hno : ∀ d ∈ scheme, decide (d = ':') = false := fun d hd =>
      decide_eq_false fun hcolon => not_mem_of_isScheme h hd (hcolon ▸ List.mem_cons_self)
    rw [hasScheme, Text.splitAt?_append_cons (p := (· = ':')) (decide_eq_true rfl) hno]
    exact h

/-! ## Parts -/

/-- The parts of a reference. Only the path, which may be empty, is always there. -/
structure Parts where
  scheme : Option (List Char)
  authority : Option (List Char)
  path : List Char
  query : Option (List Char)
  fragment : Option (List Char)
  deriving DecidableEq

namespace Parts

variable {p base r : Parts}

/-- What stands between the scheme and the query. -/
def hierarchy (p : Parts) : List Char := marked ['/', '/'] p.authority ++ p.path

/-- What stands behind the path. -/
def suffix (p : Parts) : List Char := marked ['?'] p.query ++ marked ['#'] p.fragment

/-- The parts put together. -/
def text (p : Parts) : List Char := schemed p.scheme ++ (p.hierarchy ++ p.suffix)

theorem text_of_none (h : p.scheme = none) : p.text = p.hierarchy ++ p.suffix := by
  rw [text, h]
  rfl

theorem text_of_some {scheme : List Char} (h : p.scheme = some scheme) :
    p.text = scheme ++ ':' :: (p.hierarchy ++ p.suffix) := by
  rw [text, h]
  exact List.append_assoc ..

/-- A path and what stands behind it, below the authority of the base. -/
theorem text_placed {scheme : List Char} (h : base.scheme = some scheme) (path : List Char) :
    (Parts.mk base.scheme base.authority path r.query r.fragment).text =
      scheme ++ ':' :: (marked ['/', '/'] base.authority ++ (path ++ r.suffix)) := by
  rw [text, h, hierarchy, List.append_assoc]
  exact List.append_assoc ..

/-- No part holds a mark that ends it, and a path that comes first cannot be mistaken for an
authority or a scheme. -/
structure WellFormed (p : Parts) : Prop where
  scheme : ∀ scheme, p.scheme = some scheme → Term.isScheme scheme = true
  authority : ∀ authority, p.authority = some authority → ∀ c ∈ authority, c ∉ ['/', '?', '#']
  path : ∀ c ∈ p.path, c ∉ ['?', '#']
  query : ∀ query, p.query = some query → '#' ∉ query
  rooted : p.authority ≠ none → ∀ c ∈ p.path.head?, c = '/'
  single : p.authority = none → ¬['/', '/'] <+: p.path
  bare : p.scheme = none → p.authority = none →
    ∀ before after, p.path = before ++ ':' :: after → Term.isScheme before = false

/-- These are the parts of a text. -/
def IsOf (p : Parts) (cs : List Char) : Prop := p.WellFormed ∧ p.text = cs

/-- Reads what stands between scheme and query. -/
def ofHierarchy (scheme : Option (List Char)) (cs : List Char) (query fragment : Option (List Char)) :
    Parts :=
  match cs with
  | '/' :: '/' :: cs => ⟨scheme, some (cut '/' cs).1, marked ['/'] (cut '/' cs).2, query, fragment⟩
  | cs => ⟨scheme, none, cs, query, fragment⟩

/-- Reads the parts of a text. Fragment and query are cut off first. -/
def ofText (cs : List Char) : Parts :=
  let (cs, fragment) := cut '#' cs
  let (cs, query) := cut '?' cs
  if hasScheme cs then
    let (scheme, rest) := cut ':' cs
    ofHierarchy (some scheme) (rest.getD []) query fragment
  else ofHierarchy none cs query fragment

theorem head?_suffix (p : Parts) : ∀ c ∈ p.suffix.head?, c ∈ ['?', '#'] := by
  intro c hc
  rw [suffix] at hc
  cases hq : p.query with
  | some query =>
    rw [hq] at hc
    obtain rfl := Option.some.inj hc
    exact List.mem_cons_self
  | none =>
    cases hf : p.fragment with
    | some fragment =>
      rw [hq, hf] at hc
      obtain rfl := Option.some.inj hc
      exact .tail _ List.mem_cons_self
    | none =>
      rw [hq, hf] at hc
      cases hc

namespace WellFormed

variable (h : p.WellFormed)
include h

/-- What stands behind the path does not become a part of it. -/
theorem head?_path_suffix (ha : p.authority ≠ none) :
    ∀ c ∈ (p.path ++ p.suffix).head?, c ∈ ['/', '?', '#'] := by
  intro c hc
  cases hpath : p.path with
  | nil =>
    rw [hpath] at hc
    exact .tail _ (p.head?_suffix c hc)
  | cons d path =>
    rw [hpath] at hc
    obtain rfl := Option.some.inj hc
    have hd := h.rooted ha d (by rw [hpath]; rfl)
    exact hd ▸ List.mem_cons_self

theorem not_slashes (ha : p.authority = none) (cs : List Char) :
    p.path ++ p.suffix ≠ '/' :: '/' :: cs := by
  have hsuffix : ∀ cs, p.suffix ≠ '/' :: cs := fun cs hcs => by
    have := p.head?_suffix '/' (by rw [hcs]; rfl)
    exact absurd this (by decide)
  intro heq
  have hsingle := h.single ha
  match hpath : p.path with
  | [] => exact hsuffix _ (by rw [← heq, hpath]; rfl)
  | [c] =>
    rw [hpath] at heq
    exact hsuffix _ (List.cons.inj heq).2
  | c :: d :: path =>
    rw [hpath] at heq hsingle
    obtain ⟨rfl, htail⟩ := List.cons.inj heq
    obtain ⟨rfl, -⟩ := List.cons.inj htail
    exact hsingle ⟨path, rfl⟩

theorem hasScheme_of_none (hs : p.scheme = none) : hasScheme p.text = false := by
  refine Bool.eq_false_iff.mpr fun hscheme => ?_
  obtain ⟨scheme, rest, htext, hscheme⟩ := hasScheme_iff.mp hscheme
  have hno : ∀ c ∈ scheme, c ∉ [':', '/', '?', '#'] := fun c => not_mem_of_isScheme hscheme
  rw [text, hs, hierarchy] at htext
  cases ha : p.authority with
  | some authority =>
    rw [ha] at htext
    cases scheme with
    | nil => cases hscheme
    | cons c scheme =>
      obtain ⟨rfl, -⟩ := List.cons.inj htext
      exact hno _ List.mem_cons_self (by decide)
  | none =>
    rw [ha] at htext
    have hsplit : p.path ++ p.suffix = scheme ++ ':' :: rest := htext
    have hcolon : ∀ cs, p.suffix ≠ ':' :: cs := fun cs hcs => by
      have := p.head?_suffix ':' (by rw [hcs]; rfl)
      exact absurd this (by decide)
    rcases List.append_eq_append_iff.mp hsplit with ⟨front, hfront, hsuffix⟩ | ⟨back, hpath, hback⟩
    · -- the colon stands behind the path
      cases front with
      | nil => exact hcolon _ hsuffix
      | cons c front =>
        have hc := p.head?_suffix c (by rw [hsuffix]; rfl)
        exact hno c (by rw [hfront]; simp) (by simp_all)
    · cases back with
      | nil => exact hcolon _ hback.symm
      | cons c back =>
        obtain ⟨rfl, -⟩ := List.cons.inj hback
        rw [h.bare hs ha _ _ hpath] at hscheme
        cases hscheme

theorem hasScheme_text : hasScheme p.text = p.scheme.isSome := by
  cases hs : p.scheme with
  | none => exact h.hasScheme_of_none hs
  | some scheme =>
    refine hasScheme_iff.mpr ⟨scheme, p.hierarchy ++ p.suffix, ?_, h.scheme scheme hs⟩
    rw [text, hs, schemed, List.append_assoc, List.singleton_append]

end WellFormed

/-! ## Reading the parts -/

/-- All but the fragment. -/
def document (p : Parts) : List Char := schemed p.scheme ++ (p.hierarchy ++ marked ['?'] p.query)

theorem text_eq (p : Parts) : p.text = p.document ++ marked ['#'] p.fragment := by
  rw [text, document, suffix, List.append_assoc, List.append_assoc]

namespace WellFormed

variable (h : p.WellFormed)
include h

theorem not_mem_schemed : ∀ c ∈ schemed p.scheme, c ∉ ['?', '#'] := by
  intro c hc
  cases hs : p.scheme with
  | none =>
    rw [hs] at hc
    cases hc
  | some scheme =>
    rw [hs] at hc
    rcases List.mem_append.mp hc with hc | hc
    · exact fun hmem => not_mem_of_isScheme (h.scheme scheme hs) hc (.tail _ (.tail _ hmem))
    · rw [List.mem_singleton.mp hc]
      decide

theorem not_mem_hierarchy : ∀ c ∈ p.hierarchy, c ∉ ['?', '#'] := by
  intro c hc
  rcases List.mem_append.mp hc with hc | hc
  · cases ha : p.authority with
    | none =>
      rw [ha] at hc
      cases hc
    | some authority =>
      rw [ha] at hc
      rcases List.mem_append.mp hc with hc | hc
      · rw [List.eq_of_mem_replicate (n := 2) hc]
        decide
      · exact fun hmem => h.authority authority ha c hc (.tail _ hmem)
  · exact h.path c hc

theorem hash_not_mem_document : '#' ∉ p.document := by
  intro hmem
  rcases List.mem_append.mp hmem with hmem | hmem
  · exact h.not_mem_schemed _ hmem (by decide)
  rcases List.mem_append.mp hmem with hmem | hmem
  · exact h.not_mem_hierarchy _ hmem (by decide)
  · cases hq : p.query with
    | none =>
      rw [hq] at hmem
      cases hmem
    | some query =>
      rw [hq] at hmem
      rcases List.mem_cons.mp hmem with hmem | hmem
      · exact absurd hmem (by decide)
      · exact h.query query hq hmem

theorem ofHierarchy_eq :
    ofHierarchy p.scheme p.hierarchy p.query p.fragment = p := by
  rw [hierarchy]
  cases ha : p.authority with
  | some authority =>
    have hno : '/' ∉ authority := fun hmem => h.authority authority ha _ hmem (by decide)
    obtain ⟨after, hpath⟩ : ∃ after, p.path = marked ['/'] after := by
      cases hpath : p.path with
      | nil => exact ⟨none, rfl⟩
      | cons c path =>
        obtain rfl := h.rooted (by rw [ha]; exact nofun) c (by rw [hpath]; rfl)
        exact ⟨some path, rfl⟩
    change Parts.mk p.scheme (some (cut '/' (authority ++ p.path)).1)
      (marked ['/'] (cut '/' (authority ++ p.path)).2) p.query p.fragment = p
    rw [hpath, cut_append hno, ← hpath, ← ha]
  | none =>
    rw [marked, List.nil_append, ofHierarchy, ← ha]
    exact fun cs hpath => h.single ha ⟨cs, hpath.symm⟩

/-- The parts are read back. -/
theorem ofText_text : ofText p.text = p := by
  have hno : '?' ∉ schemed p.scheme ++ p.hierarchy := fun hmem => (List.mem_append.mp hmem).elim
    (fun hmem => h.not_mem_schemed _ hmem (by decide))
    fun hmem => h.not_mem_hierarchy _ hmem (by decide)
  have hcut : cut '?' p.document = (schemed p.scheme ++ p.hierarchy, p.query) := by
    rw [document, ← List.append_assoc]
    exact cut_append hno p.query
  -- the scheme is told from what stands in front of the query
  have hplain : WellFormed { p with query := none, fragment := none } :=
    ⟨h.scheme, h.authority, h.path, nofun, h.rooted, h.single, h.bare⟩
  have hscheme : hasScheme (schemed p.scheme ++ p.hierarchy) = p.scheme.isSome := by
    rw [← hplain.hasScheme_text, text]
    exact congrArg hasScheme (congrArg (schemed p.scheme ++ ·) (List.append_nil p.hierarchy).symm)
  rw [ofText, text_eq, cut_append h.hash_not_mem_document]
  dsimp only
  rw [hcut]
  dsimp only
  rw [hscheme]
  cases hs : p.scheme with
  | none =>
    have hfront : schemed none ++ p.hierarchy = p.hierarchy := rfl
    rw [if_neg (by exact nofun), hfront, ← hs]
    exact h.ofHierarchy_eq
  | some scheme =>
    have hcolon : ':' ∉ scheme := fun hmem =>
      not_mem_of_isScheme (h.scheme scheme hs) hmem (by decide)
    have hfront : schemed (some scheme) ++ p.hierarchy =
        scheme ++ marked [':'] (some p.hierarchy) := List.append_assoc ..
    rw [if_pos (by rfl), hfront, cut_append hcolon, ← hs]
    exact h.ofHierarchy_eq

end WellFormed

section

variable {scheme query fragment : Option (List Char)}

theorem text_ofHierarchy : (ofHierarchy scheme cs query fragment).text =
    schemed scheme ++ (cs ++ (marked ['?'] query ++ marked ['#'] fragment)) := by
  unfold ofHierarchy
  split
  next cs =>
    have hcs : marked ['/', '/'] (some (cut '/' cs).1) ++ marked ['/'] (cut '/' cs).2 =
        '/' :: '/' :: cs := congrArg ('/' :: '/' :: ·) (cut_spec '/' cs).2
    rw [text, hierarchy, hcs]
    rfl
  next => rfl

theorem wellFormed_ofHierarchy (hscheme : ∀ s, scheme = some s → Term.isScheme s = true)
    (hcs : ∀ c ∈ cs, c ∉ ['?', '#']) (hquery : ∀ q, query = some q → '#' ∉ q)
    (hbare : scheme = none → hasScheme cs = false) :
    (ofHierarchy scheme cs query fragment).WellFormed := by
  unfold ofHierarchy
  split
  next cs =>
    obtain ⟨hslash, happend⟩ := cut_spec '/' cs
    have hin : ∀ c ∈ (cut '/' cs).1 ++ marked ['/'] (cut '/' cs).2, c ∉ ['?', '#'] := fun c hc =>
      hcs c (.tail _ (.tail _ (happend ▸ hc)))
    refine ⟨hscheme, ?_, fun c hc => hin c (List.mem_append_right _ hc), hquery, fun _ c hc => ?_,
      nofun, nofun⟩
    · intro authority hauthority c hc hmem
      obtain rfl := Option.some.inj hauthority
      rcases List.mem_cons.mp hmem with rfl | hmem
      · exact hslash hc
      · exact hin c (List.mem_append_left _ hc) hmem
    · cases hafter : (cut '/' cs).2 with
      | none =>
        rw [hafter] at hc
        cases hc
      | some after =>
        rw [hafter] at hc
        exact (Option.some.inj hc).symm
  next hslashes =>
    refine ⟨hscheme, nofun, hcs, hquery, fun h => absurd rfl h, fun _ => ?_, ?_⟩
    · rintro ⟨path, hpath⟩
      exact hslashes path hpath.symm
    · intro hs _ before after hpath
      refine Bool.eq_false_iff.mpr fun hbefore => ?_
      have := hasScheme_iff.mpr ⟨before, after, hpath, hbefore⟩
      rw [hbare hs] at this
      cases this

end

/-- The parts that are read are well formed and make up the text. -/
theorem isOf_ofText (cs : List Char) : (ofText cs).IsOf cs := by
  obtain ⟨hhash, hfragment⟩ := cut_spec '#' cs
  obtain ⟨hmark, hquery⟩ := cut_spec '?' (cut '#' cs).1
  rw [ofText]
  dsimp only
  generalize cut '#' cs = a at *
  generalize cut '?' a.1 = b at *
  obtain ⟨a, fragment⟩ := a
  obtain ⟨front, query⟩ := b
  dsimp only at *
  subst hquery
  have hfront : ∀ c ∈ front, c ∉ ['?', '#'] := by
    rintro c hc hmem
    rcases List.mem_cons.mp hmem with rfl | hmem
    · exact hmark hc
    · rw [List.mem_singleton.mp hmem] at hc
      exact hhash (List.mem_append_left _ hc)
  have hq : ∀ q, query = some q → '#' ∉ q := by
    rintro q rfl hmem
    exact hhash (List.mem_append_right _ (.tail _ hmem))
  split
  next hs =>
    obtain ⟨scheme, rest, rfl, hscheme⟩ := hasScheme_iff.mp hs
    have hcolon : ':' ∉ scheme := fun hmem => not_mem_of_isScheme hscheme hmem (by decide)
    have hcut : cut ':' (scheme ++ ':' :: rest) = (scheme, some rest) :=
      cut_append hcolon (some rest)
    rw [hcut]
    refine ⟨wellFormed_ofHierarchy (fun s h => Option.some.inj h ▸ hscheme)
      (fun c hc => hfront c (List.mem_append_right _ (.tail _ hc))) hq nofun, ?_⟩
    rw [text_ofHierarchy, ← hfragment]
    simp [schemed]
  next hs =>
    refine ⟨wellFormed_ofHierarchy nofun hfront hq fun _ => Bool.eq_false_iff.mpr hs, ?_⟩
    rw [text_ofHierarchy, ← hfragment]
    simp [schemed]

theorem isOf_iff : p.IsOf cs ↔ p = ofText cs := by
  constructor
  · rintro ⟨h, rfl⟩
    exact h.ofText_text.symm
  · rintro rfl
    exact isOf_ofText cs

end Parts
end Reference
end DualStore
