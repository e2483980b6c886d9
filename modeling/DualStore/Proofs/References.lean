import DualStore.Proofs.ReferenceParts
import Mathlib.Data.List.DropRight
import Mathlib.Data.List.TakeDrop

/-! What references stand for next to a base. Strict resolution takes the parts that a reference
lacks from the base (`Parts.target`). Resolving the texts gives the text of this target unless the
directory of the base is put where its whole path belongs, or brings a slash that the base does not
have (`resolve_eq_target_iff`). -/

namespace DualStore
namespace Reference

variable {cs rest : List Char}

/-- A run of characters ends where the first other one stands. -/
theorem takeWhile_append {p : Char → Bool} (hcs : ∀ c ∈ cs, p c = true)
    (hrest : ∀ c ∈ rest.head?, p c = false) : (cs ++ rest).takeWhile p = cs := by
  rw [List.takeWhile_append_of_pos hcs]
  cases rest with
  | nil => exact List.append_nil cs
  | cons c rest =>
    rw [List.takeWhile_cons_of_neg (by rw [hrest c rfl]; exact Bool.false_ne_true),
      List.append_nil]

theorem dropWhile_append {p : Char → Bool} (hcs : ∀ c ∈ cs, p c = true)
    (hrest : ∀ c ∈ rest.head?, p c = false) : (cs ++ rest).dropWhile p = rest := by
  rw [List.dropWhile_append_of_pos hcs]
  cases rest with
  | nil => rfl
  | cons c rest =>
    exact List.dropWhile_cons_of_neg (by rw [hrest c rfl]; exact Bool.false_ne_true)

namespace Parts

variable {p base r : Parts}

/-! ## Resolution -/

/-- A relative path next to a base: below the root if the base has an authority and no path, else
in the place of all that follows the last slash. -/
def merge (base : Parts) (path : List Char) : List Char :=
  if base.authority ≠ none ∧ base.path = [] then '/' :: path
  else base.path.rdropWhile (· != '/') ++ path

/-- What a reference stands for next to a base, segments `.` and `..` being kept: what stands in
front of the first part that the reference has is taken from the base. -/
def target (base r : Parts) : Parts :=
  if r.scheme ≠ none then r
  else if r.authority ≠ none then { r with scheme := base.scheme }
  else if r.path = [] then { base with query := r.query.or base.query, fragment := r.fragment }
  else if r.path.head? = some '/' then
    { r with scheme := base.scheme, authority := base.authority }
  else { r with scheme := base.scheme, authority := base.authority, path := base.merge r.path }

/-- References that are put behind the directory of the base: a relative path, or a query alone. -/
structure Relative (r : Parts) : Prop where
  scheme : r.scheme = none
  authority : r.authority = none
  root : r.path.head? ≠ some '/'
  there : r.path = [] → r.query ≠ none

/-- Where the directory of the base is not what belongs in front: a query alone keeps the whole path
of the base, and a relative path brings no slash if the base has neither an authority nor a slash in
its path. -/
def Strays (base r : Parts) : Prop :=
  r.Relative ∧ if r.path = [] then base.path.getLast? ≠ some '/'
    else base.authority = none ∧ '/' ∉ base.path

namespace WellFormed

section

variable (h : base.WellFormed)
include h

theorem takeWhile_text : base.text.takeWhile (· != '#') = base.document := by
  rw [text_eq]
  refine takeWhile_append (fun c hc => bne_iff_ne.mpr ?_) fun c hc => ?_
  · rintro rfl
    exact h.hash_not_mem_document hc
  · cases hf : base.fragment with
    | none =>
      rw [hf] at hc
      cases hc
    | some fragment =>
      rw [hf] at hc
      obtain rfl := Option.some.inj hc
      rfl

theorem takeWhile_path :
    (base.path ++ base.suffix).takeWhile (fun c => c != '?' && c != '#') = base.path := by
  refine takeWhile_append (fun c hc => ?_) fun c hc => ?_
  · simpa using h.path c hc
  · rcases List.mem_cons.mp (base.head?_suffix c hc) with rfl | hc
    · rfl
    · rw [List.mem_singleton.mp hc]
      rfl

theorem splitAuthority_eq : splitAuthority (base.hierarchy ++ base.suffix) =
    (marked ['/', '/'] base.authority, base.path ++ base.suffix) := by
  cases ha : base.authority with
  | none =>
    rw [hierarchy, ha, marked, List.nil_append, splitAuthority]
    exact fun cs => h.not_slashes ha cs
  | some authority =>
    have hin : ∀ c ∈ authority, (c != '/' && c != '?' && c != '#') = true := fun c hc => by
      simpa [and_assoc] using h.authority authority ha c hc
    have hout : ∀ c ∈ (base.path ++ base.suffix).head?,
        (c != '/' && c != '?' && c != '#') = false := fun c hc => by
      have hall : ∀ d ∈ ['/', '?', '#'], (d != '/' && d != '?' && d != '#') = false := by simp
      exact hall c (h.head?_path_suffix (by rw [ha]; exact Option.some_ne_none _) c hc)
    have hsplit : ∀ rest, splitAuthority ('/' :: '/' :: rest) =
        ('/' :: '/' :: (rest.span fun c => c != '/' && c != '?' && c != '#').1,
          (rest.span fun c => c != '/' && c != '?' && c != '#').2) := fun _ => rfl
    rw [hierarchy, ha, List.append_assoc]
    change splitAuthority ('/' :: '/' :: (authority ++ (base.path ++ base.suffix))) = _
    rw [hsplit, List.span_eq_takeWhile_dropWhile, takeWhile_append hin hout,
      dropWhile_append hin hout]
    rfl

theorem splitAt?_text {scheme : List Char} (hs : base.scheme = some scheme) :
    Text.splitAt? (· = ':') base.text = some (scheme, base.hierarchy ++ base.suffix) := by
  have hno : ∀ d ∈ scheme, decide (d = ':') = false := fun d hd => decide_eq_false fun hcolon =>
    not_mem_of_isScheme (h.scheme scheme hs) hd (hcolon ▸ List.mem_cons_self)
  rw [text, hs, schemed, List.append_assoc]
  exact Text.splitAt?_append_cons (decide_eq_true rfl) hno _

/-- A reference with more than a fragment and without a scheme. -/
theorem resolve_eq {scheme reference : List Char} (hs : base.scheme = some scheme)
    (hr : hasScheme reference = false) (hne : reference ≠ []) (hhash : reference.head? ≠ some '#') :
    resolve base.text reference =
      if ['/', '/'] <+: reference then scheme ++ ':' :: reference
      else if reference.head? = some '/' then
        scheme ++ ':' :: marked ['/', '/'] base.authority ++ reference
      else scheme ++ ':' :: marked ['/', '/'] base.authority ++ directory base.path ++
        reference := by
  rw [resolve, if_neg (by rw [hr]; exact Bool.false_ne_true)]
  dsimp only
  split
  · exact absurd rfl hne
  · exact absurd rfl hhash
  rw [h.splitAt?_text hs]
  dsimp only
  rw [h.splitAuthority_eq]
  dsimp only
  rw [h.takeWhile_path]
  split
  next cs _ _ =>
    have hslashes : ['/', '/'] <+: '/' :: '/' :: cs := List.prefix_append ['/', '/'] cs
    rw [if_pos hslashes]
  next cs hslashes _ _ =>
    rw [if_neg, if_pos (List.head?_cons ..)]
    rintro ⟨rest, hrest⟩
    exact hslashes rest (List.cons.inj hrest).2.symm
  next hslashes hslash =>
    rw [if_neg, if_neg]
    · intro hhead
      obtain ⟨cs, hcs⟩ := List.head?_eq_some_iff.mp hhead
      exact hslash cs hcs
    · rintro ⟨cs, rfl⟩
      exact hslashes cs rfl

end

theorem resolve_of_scheme (hr : r.WellFormed) (hs : r.scheme ≠ none) (base : Parts) :
    resolve base.text r.text = (base.target r).text := by
  have hscheme : hasScheme r.text = true := by
    rw [hr.hasScheme_text]
    exact Option.isSome_iff_ne_none.mpr hs
  rw [resolve, if_pos hscheme, target, if_pos hs]

section

variable (hbase : base.WellFormed) (hs : base.scheme ≠ none) (hr : r.WellFormed)
  (hrs : r.scheme = none)
include hbase hs hr hrs

theorem resolve_of_authority (ha : r.authority ≠ none) :
    resolve base.text r.text = (base.target r).text := by
  obtain ⟨scheme, hs⟩ := Option.ne_none_iff_exists'.mp hs
  obtain ⟨authority, hsome⟩ := Option.ne_none_iff_exists'.mp ha
  have htext : r.text = '/' :: '/' :: (authority ++ r.path ++ r.suffix) := by
    rw [text_of_none hrs, hierarchy, hsome]
    rfl
  have hslashes : ['/', '/'] <+: r.text := ⟨_, htext.symm⟩
  rw [hbase.resolve_eq hs (hr.hasScheme_of_none hrs) (by rw [htext]; exact List.cons_ne_nil _ _)
    (by rw [htext, List.head?_cons]; decide), if_pos hslashes, target, if_neg (not_not.mpr hrs), if_pos ha,
    text_of_none hrs]
  exact (text_of_some (p := { r with scheme := base.scheme }) hs).symm

theorem resolve_of_root (ha : r.authority = none) (hroot : r.path.head? = some '/') :
    resolve base.text r.text = (base.target r).text := by
  obtain ⟨scheme, hs⟩ := Option.ne_none_iff_exists'.mp hs
  obtain ⟨path, hpath⟩ := List.head?_eq_some_iff.mp hroot
  have hunschemed : r.text = r.path ++ r.suffix := by
    rw [text_of_none hrs, hierarchy, ha]
    rfl
  have htext : r.text = '/' :: (path ++ r.suffix) := by rw [hunschemed, hpath]; rfl
  have hslashes : ¬['/', '/'] <+: r.text := by
    rintro ⟨cs, hcs⟩
    exact hr.not_slashes ha cs (hunschemed.symm.trans hcs.symm)
  rw [hbase.resolve_eq hs (hr.hasScheme_of_none hrs) (by rw [htext]; exact List.cons_ne_nil _ _)
    (by rw [htext, List.head?_cons]; decide), if_neg hslashes, if_pos (by rw [htext]; rfl), target,
    if_neg (not_not.mpr hrs), if_neg (not_not.mpr ha),
    if_neg (by rw [hpath]; exact List.cons_ne_nil _ _), if_pos hroot, hunschemed, text_placed hs, List.append_assoc, List.cons_append]

/-- The directory of the base is put in front of a relative reference. -/
theorem resolve_of_relative (hrel : r.Relative) : resolve base.text r.text =
    { base.target r with path := directory base.path ++ r.path }.text := by
  obtain ⟨scheme, hs⟩ := Option.ne_none_iff_exists'.mp hs
  have hunschemed : r.text = r.path ++ r.suffix := by
    rw [text_of_none hrs, hierarchy, hrel.authority]
    rfl
  obtain ⟨c, cs, htext, hslash, hhash⟩ : ∃ c cs, r.text = c :: cs ∧ c ≠ '/' ∧ c ≠ '#' := by
    cases hpath : r.path with
    | nil =>
      obtain ⟨query, hq⟩ := Option.ne_none_iff_exists'.mp (hrel.there hpath)
      rw [hunschemed, hpath, suffix, hq]
      exact ⟨_, _, rfl, by decide, by decide⟩
    | cons c path =>
      have hc : c ∉ ['?', '#'] := hr.path c (by rw [hpath]; exact List.mem_cons_self)
      rw [hunschemed, hpath]
      refine ⟨c, _, rfl, fun hslash => hrel.root ?_, fun hhash => hc ?_⟩
      · rw [hpath, hslash]
        rfl
      · exact hhash ▸ List.mem_cons_of_mem _ List.mem_cons_self
  have hslashes : ¬['/', '/'] <+: r.text := by
    rintro ⟨rest, hrest⟩
    rw [htext] at hrest
    exact hslash (List.cons.inj hrest).1.symm
  have htarget : { base.target r with path := directory base.path ++ r.path } =
      Parts.mk base.scheme base.authority (directory base.path ++ r.path) r.query r.fragment := by
    rw [target, if_neg (not_not.mpr hrs), if_neg (not_not.mpr hrel.authority), if_neg hrel.root]
    split
    next hpath =>
      obtain ⟨query, hq⟩ := Option.ne_none_iff_exists'.mp (hrel.there hpath)
      rw [hq]
      rfl
    · rfl
  rw [hbase.resolve_eq hs (hr.hasScheme_of_none hrs) (by rw [htext]; exact List.cons_ne_nil _ _)
    (by rw [htext]; exact fun h => hhash (Option.some.inj h)), if_neg hslashes,
    if_neg (by rw [htext]; exact fun h => hslash (Option.some.inj h)), htarget, text_placed hs,
    hunschemed]
  simp only [List.append_assoc, List.cons_append]

end

/-- A reference with a fragment at most. -/
theorem resolve_of_fragment (hbase : base.WellFormed) (hr : r.WellFormed) (hrs : r.scheme = none)
    (ha : r.authority = none) (hpath : r.path = []) (hq : r.query = none) :
    resolve base.text r.text = (base.target r).text := by
  have htext : r.text = marked ['#'] r.fragment := by
    rw [text_of_none hrs, hierarchy, ha, hpath, suffix, hq]
    rfl
  have htarget : (base.target r).text = base.document ++ r.text := by
    rw [target, if_neg (not_not.mpr hrs), if_neg (not_not.mpr ha), if_pos hpath, hq, htext]
    exact text_eq _
  have hno : ¬hasScheme r.text = true := by rw [hr.hasScheme_of_none hrs]; exact Bool.false_ne_true
  rw [htarget, resolve, if_neg hno, hbase.takeWhile_text, htext]
  cases r.fragment with
  | none => exact (List.append_nil _).symm
  | some fragment => rfl

/-- All but relative references stand for their targets. -/
theorem resolve_text (hbase : base.WellFormed) (hs : base.scheme ≠ none) (hr : r.WellFormed)
    (hrel : ¬r.Relative) : resolve base.text r.text = (base.target r).text := by
  by_cases hrs : r.scheme = none
  · by_cases ha : r.authority = none
    · by_cases hroot : r.path.head? = some '/'
      · exact resolve_of_root hbase hs hr hrs ha hroot
      · have hthere : ¬(r.path = [] → r.query ≠ none) := fun h => hrel ⟨hrs, ha, hroot, h⟩
        obtain ⟨hpath, hq⟩ := Classical.not_imp.mp hthere
        exact resolve_of_fragment hbase hr hrs ha hpath (not_not.mp hq)
    · exact resolve_of_authority hbase hs hr hrs ha
  · exact resolve_of_scheme hr hrs base

end WellFormed

/-! ## Directories -/

theorem rdropWhile_of_not_mem {path : List Char} (h : '/' ∉ path) :
    path.rdropWhile (· != '/') = [] :=
  List.rdropWhile_eq_nil_iff.mpr fun _ hc => bne_iff_ne.mpr fun hslash => h (hslash ▸ hc)

theorem directory_eq (path : List Char) : directory path =
    if '/' ∈ path then path.rdropWhile (· != '/') else ['/'] := by
  change (if (path.rdropWhile (· != '/')).isEmpty then ['/'] else path.rdropWhile (· != '/')) = _
  by_cases h : '/' ∈ path
  · have hne : path.rdropWhile (· != '/') ≠ [] := fun hnil =>
      absurd (List.rdropWhile_eq_nil_iff.mp hnil '/' h) (by decide)
    rw [if_pos h, if_neg fun hempty => hne (List.isEmpty_iff.mp hempty)]
  · rw [if_neg h, rdropWhile_of_not_mem h]
    rfl

theorem directory_eq_self_iff {path : List Char} :
    directory path = path ↔ path.getLast? = some '/' := by
  rw [directory_eq]
  by_cases h : '/' ∈ path
  · have hne : path ≠ [] := List.ne_nil_of_mem h
    rw [if_pos h, List.rdropWhile_eq_self_iff, List.getLast?_eq_some_getLast hne, Option.some.injEq]
    simp [hne]
  · rw [if_neg h]
    refine iff_of_false (fun hpath => h (hpath ▸ List.mem_cons_self)) fun hlast => h ?_
    exact List.mem_of_getLast? hlast

/-- The directory is what belongs in front, unless the reference strays. -/
theorem path_target_eq_iff (hbase : base.WellFormed) (hrel : r.Relative) :
    directory base.path ++ r.path = (base.target r).path ↔ ¬base.Strays r := by
  rw [target, if_neg (not_not.mpr hrel.scheme), if_neg (not_not.mpr hrel.authority),
    if_neg hrel.root, Strays, and_iff_right hrel]
  by_cases hpath : r.path = []
  · rw [if_pos hpath, if_pos hpath, hpath, List.append_nil, not_not]
    exact directory_eq_self_iff
  · rw [if_neg hpath, if_neg hpath, merge, directory_eq]
    by_cases hslash : '/' ∈ base.path
    · rw [if_pos hslash, if_neg fun h => List.ne_nil_of_mem hslash h.2]
      exact iff_of_true rfl fun h => h.2 hslash
    · rw [if_neg hslash, rdropWhile_of_not_mem hslash]
      by_cases ha : base.authority = none
      · rw [if_neg fun h => h.1 ha]
        exact iff_of_false (by simp) (not_not.mpr ⟨ha, hslash⟩)
      · have hnil : base.path = [] := by
          cases hpath : base.path with
          | nil => rfl
          | cons c path =>
            obtain rfl := hbase.rooted ha c (by rw [hpath]; rfl)
            exact absurd (hpath ▸ List.mem_cons_self) hslash
        rw [if_pos ⟨ha, hnil⟩]
        exact iff_of_true rfl fun h => ha h.1

theorem text_with_path_eq_iff {path : List Char} :
    { p with path := path }.text = p.text ↔ path = p.path := by
  simp [text, hierarchy, suffix]

end Parts

/-- Resolving the texts gives the text of the target, unless the reference strays, and then the
directory of the base is put in front of its path. -/
theorem resolve_eq_target_iff {base : List Char} (h : hasScheme base = true)
    (reference : List Char) :
    let b := Parts.ofText base
    let r := Parts.ofText reference
    b.IsOf base ∧ r.IsOf reference ∧
      (resolve base reference = (b.target r).text ↔ ¬b.Strays r) ∧
      (b.Strays r → resolve base reference =
        { b.target r with path := directory b.path ++ r.path }.text) := by
  intro b r
  have hb : b.IsOf base := Parts.isOf_ofText base
  have hr : r.IsOf reference := Parts.isOf_ofText reference
  have hs : b.scheme ≠ none := by
    rw [← hb.2, hb.1.hasScheme_text] at h
    exact Option.isSome_iff_ne_none.mp h
  refine ⟨hb, hr, ?_, fun hstrays => ?_⟩
  · by_cases hrel : r.Relative
    · rw [← hb.2, ← hr.2, Parts.WellFormed.resolve_of_relative hb.1 hs hr.1 hrel.scheme hrel,
        Parts.text_with_path_eq_iff]
      exact Parts.path_target_eq_iff hb.1 hrel
    · rw [← hb.2, ← hr.2, Parts.WellFormed.resolve_text hb.1 hs hr.1 hrel]
      exact iff_of_true rfl fun hstrays => hrel hstrays.1
  · have := Parts.WellFormed.resolve_of_relative hb.1 hs hr.1 hstrays.1.scheme hstrays.1
    rwa [hb.2, hr.2] at this

/-- A query alone loses the last segment of the path of the base, and a path gets a slash that the
base does not have. -/
theorem resolve_eq_target_iff_strays :
    let document := "http://e/dir/doc?x#f".toList
    let name := "urn:x:y".toList
    (hasScheme document = true ∧ resolve document "?q".toList = "http://e/dir/?q".toList ∧
      ((Parts.ofText document).target (Parts.ofText "?q".toList)).text =
        "http://e/dir/doc?q".toList ∧
      (Parts.ofText document).Strays (Parts.ofText "?q".toList)) ∧
    hasScheme name = true ∧ resolve name "z".toList = "urn:/z".toList ∧
      ((Parts.ofText name).target (Parts.ofText "z".toList)).text = "urn:z".toList ∧
      (Parts.ofText name).Strays (Parts.ofText "z".toList) := by
  intro document name
  have hdocument : hasScheme document = true := by decide +kernel
  have hname : hasScheme name = true := by decide +kernel
  obtain ⟨-, -, hquery, -⟩ := resolve_eq_target_iff hdocument "?q".toList
  obtain ⟨-, -, hpath, -⟩ := resolve_eq_target_iff hname "z".toList
  refine ⟨⟨hdocument, by decide +kernel, by decide +kernel, ?_⟩, hname, by decide +kernel,
    by decide +kernel, ?_⟩
  · exact not_not.mp fun hkeeps => absurd (hquery.mpr hkeeps) (by decide +kernel)
  · exact not_not.mp fun hkeeps => absurd (hpath.mpr hkeeps) (by decide +kernel)

end Reference
end DualStore
