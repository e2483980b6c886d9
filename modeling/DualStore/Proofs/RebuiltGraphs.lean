import DualStore.Proofs.Rebuilding
import DualStore.Proofs.RefusedRequests
import DualStore.Proofs.ServiceCalls

/-! Rebuilding the index for a graph that any term names. The name goes into the request as the text
of the term, checked or not. Unless this text is over before the term is, or holds an escape, the
request empties the graph with this very name or is refused, so that nothing outside of the graph
changes (`Service.rebuild_agreesOutside_iff`). -/

namespace DualStore

/-! ## Names in a request -/

namespace Token

variable {cs rest : List Char} {c : Char} {tok : Token} {ts : List Token}

/-- A token that names an IRI, in full or with a prefix. -/
def isReference : Token → Bool
  | iri _ | name _ _ => true
  | _ => false

private theorem isReference_readNumber {r : Read Token cs} (h : readNumber cs = some r) :
    r.value.isReference = false := by
  obtain ⟨⟨tok, rest⟩, hsplit, h⟩ := Option.bind_eq_some_iff.mp h
  simp only [Read.of?, Option.dite_none_right_eq_some] at h
  obtain ⟨_, h⟩ := h
  cases h
  change tok.isReference = false
  unfold splitNumber? at hsplit
  dsimp only at hsplit
  split at hsplit
  · cases hsplit
    rfl
  split at hsplit
  · rw [Option.ite_none_left_eq_some] at hsplit
    cases hsplit.2
    rfl
  split at hsplit
  · rw [Option.ite_none_left_eq_some] at hsplit
    cases hsplit.2
    rfl
  · cases hsplit

/-- Names come from the readers of IRIs and of words only. -/
theorem read_of_isReference {r : Read Token cs} (h : read cs = some r)
    (hr : r.value.isReference = true) : readIri cs = some r ∨ readWord cs = some r := by
  have hother : ∀ {x : Option (Read Token cs)}, (∀ r, x = some r → r.value.isReference = false) →
      x ≠ some r := by
    intro x hx h
    rw [hx r h] at hr
    cases hr
  have hmark : readMark cs ≠ some r := hother fun r h => by
    unfold readMark at h
    split at h
    · exact Option.some.inj h ▸ rfl
    · cases h
  have hvar : readVar cs ≠ some r := hother fun r h => by
    unfold readVar at h
    split at h
    · cases h
    · rw [Option.ite_none_right_eq_some] at h
      obtain ⟨run, -, rfl⟩ := Option.map_eq_some_iff.mp h.2
      rfl
  have hblank : readBlank cs ≠ some r := hother fun r h => by
    unfold readBlank at h
    split at h
    · obtain ⟨run, -, rfl⟩ := Option.map_eq_some_iff.mp h
      rfl
    · cases h
  have hlanguage : readLanguage cs ≠ some r := hother fun r h => by
    unfold readLanguage at h
    split at h
    · obtain ⟨run, -, rfl⟩ := Option.map_eq_some_iff.mp h
      rfl
    · cases h
  have hstring : readString cs ≠ some r := hother fun r h => by
    unfold readString at h
    split at h
    · cases h
    · rw [Option.ite_none_right_eq_some] at h
      obtain ⟨-, h⟩ := h
      split at h
      · obtain ⟨run, -, rfl⟩ := Option.map_eq_some_iff.mp h
        rfl
      · obtain ⟨run, -, rfl⟩ := Option.map_eq_some_iff.mp h
        rfl
  have hpunct : readPunct cs ≠ some r := hother fun r h => by
    unfold readPunct at h
    split at h
    · cases h
    · rw [Option.ite_none_right_eq_some] at h
      cases h.2
      rfl
  have hnumber : readNumber cs ≠ some r := hother fun r h => isReference_readNumber h
  simp only [read, Option.orElse_eq_orElse, Option.orElse_eq_or, Option.or_eq_some_iff, hmark, hvar,
    hblank, hlanguage, hstring, hnumber, hpunct, false_or, and_false, or_false] at h
  tauto

/-- An IRI does not go on after a blank. -/
theorem readIriBody_of_blank (hcs : ∀ d ∈ cs, isIriChar d = true) (hc : Text.isBlank c = true)
    (rest : List Char) : readIriBody (cs ++ c :: rest) = none := by
  induction cs with
  | nil =>
    have hclose : c ≠ '>' := by rintro rfl; exact absurd hc (by decide)
    have hescape : c ≠ '\x5c' := by rintro rfl; exact absurd hc (by decide)
    have hend : ¬ isIriChar c = true := by simp [isIriChar, hc]
    rw [List.nil_append, readIriBody, if_neg hclose, if_neg hescape, if_neg hend]
  | cons d cs ih =>
    obtain ⟨hd, hcs⟩ := List.forall_mem_cons.mp hcs
    have hclose : d ≠ '>' := by rintro rfl; exact absurd hd (by decide)
    have hescape : d ≠ '\x5c' := by rintro rfl; exact absurd hd (by decide)
    rw [List.cons_append, readIriBody, if_neg hclose, if_neg hescape, if_pos hd, ih hcs,
      Option.map_none]

/-- The first token is read where the text starts. -/
theorem exists_read_of_scan {total : Nat} (hb : Text.isBlank c = false) (hc : c ≠ '#')
    (h : scan total (c :: cs) = .ok ts) :
    ∃ r more, read (c :: cs) = some r ∧ ts = r.value :: more := by
  have hskip : skipTrivia false (c :: cs) = c :: cs := by
    rw [skipTrivia, if_neg Bool.false_ne_true, if_neg hc, hb, if_neg Bool.false_ne_true]
  rw [scan_eq, hskip] at h
  dsimp only at h
  cases hread : read (c :: cs) with
  | none =>
    rw [hread] at h
    cases h
  | some r =>
    rw [hread] at h
    obtain ⟨more, -, rfl⟩ := map_eq_ok.mp h
    exact ⟨r, more, rfl, rfl⟩

end Token

namespace Term

variable {t : Term} {total : Nat} {tok : Token} {ts : List Token}

/-- The text of the term neither ends early nor holds an escape: if the term is an IRI, the first of
its characters that no IRI reference contains is a blank, if there is one. -/
def IsClosed (t : Term) : Prop :=
  ∀ value, t = .iri value → ∀ c ∈ value.toList.find? (!Token.isIriChar ·), Text.isBlank c = true

/-- A term whose text starts with a name is the IRI of this name. -/
theorem IsClosed.eq_of_scan (h : t.IsClosed) (hscan : Token.scan total t.chars = .ok (tok :: ts))
    (htok : tok.isReference = true) : ∃ value, t = .iri value ∧ tok = .iri value ∧ ts = [] := by
  cases t with
  | iri value =>
    cases hfind : value.toList.find? (!Token.isIriChar ·) with
    | none =>
      have hchars : ∀ c ∈ value.toList, Token.isIriChar c = true := by
        simpa only [List.find?_eq_none, Bool.not_eq_true', Bool.not_eq_false] using hfind
      have hend : Token.scan total [] = .ok [] := by rw [Token.scan_eq]; rfl
      have hcuts := Token.cutsTo_iri hchars total []
      rw [List.append_nil, String.ofList_toList, hend] at hcuts
      change Token.scan total ('<' :: value.toList ++ ['>']) = _ at hscan
      rw [List.cons_append, hcuts] at hscan
      cases hscan
      exact ⟨value, rfl, rfl, rfl⟩
    | some c =>
      obtain ⟨-, before, after, hvalue, hbefore⟩ := List.find?_eq_some_iff_append.mp hfind
      obtain ⟨r, more, hread, heq⟩ := Token.exists_read_of_scan (by decide) (by decide) hscan
      cases heq
      have hbody : Token.readIriBody (value.toList ++ ['>']) = none := by
        rw [hvalue, List.append_assoc]
        exact Token.readIriBody_of_blank (fun d hd => by simpa using hbefore d hd)
          (h value rfl c hfind) _
      rcases Token.read_of_isReference hread htok with hiri | hword
      · change (Token.readIriBody (value.toList ++ ['>'])).map _ = _ at hiri
        rw [hbody] at hiri
        cases hiri
      · cases hword
  | blank label =>
    obtain ⟨r, more, hread, heq⟩ := Token.exists_read_of_scan (by decide) (by decide) hscan
    cases heq
    rcases Token.read_of_isReference hread htok with hword | hword
    · cases hword
    · cases hword
  | literal l =>
    obtain ⟨r, more, hread, heq⟩ := Token.exists_read_of_scan (by decide) (by decide) hscan
    cases heq
    rcases Token.read_of_isReference hread htok with hword | hword
    · cases hword
    · cases hword

end Term

open Grammar

theorem Grammar.exists_reference_of_readIri {s : Scope} {ts : List Token} {r : Read Term ts}
    (h : readIri s ts = .ok r) : ∃ tok rest, ts = tok :: rest ∧ tok.isReference = true := by
  unfold readIri at h
  split at h
  · exact ⟨_, _, rfl, rfl⟩
  · exact ⟨_, _, rfl, rfl⟩
  · cases h

/-- A request for a term with a text of its own is about the graph that this term names. -/
theorem Update.isGraphScope_of_ofText_drop {t : Term} {us : List Update} (ht : t.IsClosed)
    (h : ofText (Request.drop (some t)) = .ok us) : IsGraphScope (some t) := by
  cases hd : t.isDefaultGraph with
  | true =>
    rintro _ ⟨⟩
    obtain rfl := Term.isDefaultGraph_iff.mp hd
    exact ⟨_, rfl, by decide +kernel⟩
  | false =>
    obtain ⟨ts, hscan, hus⟩ := bind_eq_ok.mp h
    have hscan : Token.scan _ (Request.drop (some t)).toList = .ok ts := mapError_eq_ok.mp hscan
    rw [Request.toList_drop hd, Request.cutsTo_dropGraph] at hscan
    obtain ⟨ts, hname, rfl⟩ := map_eq_ok.mp hscan
    have hus : ofTokens (.word "DROP" :: .word "SILENT" :: .word "GRAPH" :: ts) = .ok us := hus
    rw [ofTokens, readPrologue_word (by decide) (by decide)] at hus
    have hus : readOperations {} (.word "DROP" :: .word "SILENT" :: .word "GRAPH" :: ts) =
      .ok us := hus
    have hdrop : Token.upperCase "DROP" = "DROP" := by decide
    rw [readOperations] at hus
    obtain ⟨operation, hoperation, -⟩ := bind_eq_ok.mp hus
    obtain ⟨r, hafter, -⟩ := map_eq_ok.mp hoperation
    rw [readOperationAfter, hdrop] at hafter
    obtain ⟨target, htarget, -⟩ := bind_eq_ok.mp hafter
    change (readIri {} ts >>= _) = _ at htarget
    obtain ⟨graph, hiri, -⟩ := bind_eq_ok.mp htarget
    obtain ⟨tok, rest, rfl, htok⟩ := exists_reference_of_readIri hiri
    obtain ⟨value, rfl, rfl, rfl⟩ := ht.eq_of_scan hname htok
    rw [readIri, resolve_empty] at hiri
    obtain ⟨x, hx, -⟩ := map_eq_ok.mp hiri
    obtain ⟨hcheck, -⟩ := check_bind_eq_ok.mp (mapError_eq_ok.mp hx)
    rintro _ ⟨⟩
    exact ⟨value, rfl, hcheck⟩

/-! ## What rebuilding changes -/

/-- `j` is `i` but for the quads of one graph of one space. -/
structure MemoryIndex.AgreesOutside (space : String) (g : Term) (i j : MemoryIndex) : Prop
    extends AgreesBut space i j where
  held : ∀ q : Quad, q.graph ≠ g → (q ∈ j.held space ↔ q ∈ i.held space)

instance {space : String} {g : Term} :
    IsPreorder MemoryIndex (MemoryIndex.AgreesOutside space g) where
  refl i := ⟨refl_of _ i, fun _ _ => .rfl⟩
  trans _ _ _ h h' := ⟨trans_of _ h.toAgreesBut h'.toAgreesBut,
    fun q hq => (h'.held q hq).trans (h.held q hq)⟩

/-- Only the quads of one graph of one space and the numbers of new blank nodes differ. -/
def IndexState.AgreesOutside (space : String) (g : Term) (s s' : IndexState MemoryIndex) : Prop :=
  s.index.AgreesOutside space g s'.index

instance {space : String} {g : Term} :
    IsPreorder (IndexState MemoryIndex) (IndexState.AgreesOutside space g) where
  refl s := refl_of (MemoryIndex.AgreesOutside space g) s.index
  trans _ _ _ h h' := trans_of (MemoryIndex.AgreesOutside space g) h h'

open IndexState (AgreesOutside)

variable {settings : Settings} {side : IndexState MemoryIndex} {store : Store} {space : String}
  {g : Term} {m : SortedSet Quad}

namespace MemoryIndex

variable {i j : MemoryIndex} {next next' : Nat} {qs : List Quad}

/-- A write to the dataset of a space. -/
theorem agreesOutside_insert {m m' : SortedSet Quad} (hm : i.datasets.get? space = some m)
    (h : ∀ q : Quad, q.graph ≠ g → (q ∈ m' ↔ q ∈ m)) :
    i.AgreesOutside space g { i with datasets := i.datasets.insert space m' } where
  toAgreesBut := agreesBut_insert m'
  held q hq := by
    rw [MemoryIndex.held, MemoryIndex.held, hm, SortedMap.get?_insert, if_pos rfl]
    exact h q hq

theorem agreesOutside_of_drop (hg : IsGraphScope (some g))
    (h : update space (Request.drop (some g)) next i = .ok (j, next')) :
    i.AgreesOutside space g j := by
  obtain ⟨hi, m, -, hm, -, -⟩ := update_eq_ok.mp h
  rw [update_drop hg hi hm] at h
  obtain ⟨rfl, -⟩ := Prod.mk.inj (Except.ok.inj h)
  refine agreesOutside_insert hm fun q hq => ?_
  have hout : (QuadPattern.ofGraph (some g)).accepts q = false :=
    Bool.not_eq_true _ ▸ fun h => hq (QuadPattern.accepts_ofGraph.mp h)
  rw [SortedSet.mem_filter, hout]
  exact and_iff_left rfl

theorem isGraphScope_of_update_drop (hg : g.IsClosed)
    (h : update space (Request.drop (some g)) next i = .ok (j, next')) :
    IsGraphScope (some g) := by
  obtain ⟨-, quads, b, -, hb, -⟩ := update_eq_ok.mp h
  obtain ⟨us, hus, -⟩ := bind_eq_ok.mp hb
  exact Update.isGraphScope_of_ofText_drop hg (mapError_eq_ok.mp hus)

/-- Quads of a graph that are accepted stay in it. -/
theorem agreesOutside_of_insertData (hqs : ∀ q ∈ qs, q.Storable ∧ q.graph = g)
    (h : update space (Request.insertData qs) next i = .ok (j, next')) :
    i.AgreesOutside space g j := by
  have hnormal := normal_of_update_insertData (fun q hq => (hqs q hq).1) h
  obtain ⟨hi, m, -, hm, -, -⟩ := update_eq_ok.mp h
  rw [update_insertData (fun q hq => ⟨hnormal q hq, (hqs q hq).1⟩) hi hm] at h
  obtain ⟨rfl, -⟩ := Prod.mk.inj (Except.ok.inj h)
  refine agreesOutside_insert hm fun u hu => ?_
  rw [Operation.mem_applyAll_inserts, List.mem_map]
  refine or_iff_right ?_
  rintro ⟨q, hq, rfl⟩
  refine hu ?_
  rw [Quad.skolemize, Term.skolemize_of_isIri (hqs q hq).1.graph, (hqs q hq).2]

end MemoryIndex

namespace Scope

/-- A step of a rebuild. -/
theorem updateWithin_keeps_outside {text : String} (limit : Nat)
    (h : ∀ {i j next next'}, MemoryIndex.update space text next i = .ok (j, next') →
      i.AgreesOutside space g j) :
    Keeps (AgreesOutside space g) (IndexM.updateWithin (ι := MemoryIndex) limit space text) := by
  intro side
  rcases IndexM.updateWithin_cases limit space text side with
    ⟨index, next, -, hupdate, hrun⟩ | ⟨fault, hrun⟩
  · rw [hrun]
    exact h hupdate
  · rw [hrun]
    exact refl_of (AgreesOutside space g) side

theorem replay_keeps_outside (settings : Settings) {pieces : List (List Quad)}
    (h : ∀ q ∈ pieces.flatten, q.Storable ∧ q.graph = g) :
    Keeps (AgreesOutside space g) (replay (ι := MemoryIndex) settings space pieces) := by
  induction pieces with
  | nil => exact .pure ()
  | cons quads pieces ih =>
    rw [List.flatten_cons, List.forall_mem_append] at h
    exact (updateWithin_keeps_outside _ (MemoryIndex.agreesOutside_of_insertData h.1)).bind
      fun _ => ih h.2

/-- A rebuild ends with its first request, or goes on from there to insert the quads of the
graph. -/
theorem rebuild_cases (settings : Settings) (store : Store)
    (hm : side.index.datasets.get? space = some m) (graph : Option Term) :
    (∃ e, rebuild settings space store graph side = (.error e, side)) ∧
      (∀ side', IndexM.updateWithin settings.indexTimeout space (Request.drop graph) side ≠
        (.ok (), side')) ∨
    ∃ side',
      IndexM.updateWithin settings.indexTimeout space (Request.drop graph) side = (.ok (), side') ∧
      (rebuild settings space store graph side).2 = (replay settings space
        (chunks settings.chunkSize (store.scan (.ofGraph graph))) side').2 := by
  have hcontains : side.index.datasets.contains space = true := by
    rw [SortedMap.contains, hm]
    rfl
  rw [rebuild, CheckM.writing, adapt_run, bind_run]
  cases hav : side.index.available with
  | false =>
    obtain ⟨fault, hcreate⟩ : ∃ fault, TripleIndex.create space side.index = .error fault := by
      cases hcreate : MemoryIndex.create space side.index with
      | ok index =>
        rw [(MemoryIndex.create_eq_ok.mp hcreate).1] at hav
        cases hav
      | error fault => exact ⟨fault, hcreate⟩
    refine .inl ⟨⟨.indexWrite fault, ?_⟩, fun side' hrun => ?_⟩
    · rw [IndexM.create, hcreate]
      rfl
    · rcases IndexM.updateWithin_cases settings.indexTimeout space (Request.drop graph) side with
        ⟨index, next, -, hupdate, -⟩ | ⟨fault, hfault⟩
      · rw [(MemoryIndex.update_eq_ok.mp hupdate).1] at hav
        cases hav
      · rw [hfault] at hrun
        cases hrun
  | true =>
    have hcreate : TripleIndex.create space side.index = .ok side.index :=
      MemoryIndex.create_eq_ok.mpr ⟨hav, by rw [hcontains, if_pos rfl]⟩
    rw [IndexM.create, hcreate]
    dsimp only
    rw [bind_run]
    rcases IndexM.updateWithin_cases settings.indexTimeout space (Request.drop graph) side with
      ⟨index, next, -, -, hrun⟩ | ⟨fault, hrun⟩
    · refine .inr ⟨_, hrun, ?_⟩
      rw [hrun]
      dsimp only
      rw [bind_run]
      rcases replay settings space (chunks settings.chunkSize (store.scan (.ofGraph graph)))
        ⟨index, next⟩ with ⟨fault | _, side'⟩ <;> rfl
    · refine .inl ⟨⟨.indexWrite fault, by rw [hrun]; rfl⟩, fun side' hok => ?_⟩
      rw [hrun] at hok
      cases hok

/-- A well-formed name keeps a rebuild to its graph. -/
theorem rebuild_keeps_outside (settings : Settings) (hs : store.Valid) (hf : store.Fits)
    (hq : ∀ q ∈ store.quads, q.Storable) (hg : IsGraphScope (some g)) :
    Keeps (AgreesOutside space g)
      (rebuild (ι := MemoryIndex) settings space store (some g)) := by
  have hcreate : Keeps (AgreesOutside space g) (IndexM.create (ι := MemoryIndex) space) := by
    intro side
    unfold IndexM.create
    split
    next index h =>
      exact ⟨MemoryIndex.agreesBut_of_create h, fun q _ => by
        rw [MemoryIndex.held_of_create h]⟩
    next => exact refl_of (AgreesOutside space g) side
  refine .adapt _ <| hcreate.bind fun _ =>
    (updateWithin_keeps_outside _ (MemoryIndex.agreesOutside_of_drop hg)).bind fun _ =>
      (replay_keeps_outside settings fun q hmem => ?_).bind fun _ => .pure _
  rw [flatten_chunks, hs.mem_scan hf] at hmem
  exact ⟨hq q hmem.1, QuadPattern.accepts_ofGraph.mp hmem.2⟩

/-- Under a name that no quad may have, a rebuild has nothing to insert. -/
theorem scan_eq_nil_of_not_isGraphScope (hs : store.Valid) (hf : store.Fits)
    (hq : ∀ q ∈ store.quads, q.Storable) (hg : ¬ IsGraphScope (some g)) :
    store.scan (.ofGraph (some g)) = [] := by
  refine List.eq_nil_iff_forall_not_mem.mpr fun q hmem => hg ?_
  obtain ⟨hmem, haccepts⟩ := (hs.mem_scan hf).mp hmem
  exact QuadPattern.accepts_ofGraph.mp haccepts ▸ (hq q hmem).isGraphScope

end Scope

namespace Service

variable {s : Service MemoryIndex}

/-- For any term, rebuilding the graph that it names changes nothing outside of this graph if and
only if the request that empties the graph does not. If the text of the term is its own, nothing
outside changes, and the call fails without any change unless the term is a well-formed IRI. -/
theorem rebuild_agreesOutside_iff (hget : s.registry.get space = .ok store)
    (hstore : store.Reachable) (hf : store.Fits)
    (hm : s.side.index.datasets.get? space = some m) (g : Term) :
    (s.side.index.AgreesOutside space g (rebuild space (some g) s).2.side.index ↔
      ∀ side', IndexM.updateWithin s.settings.indexTimeout space (Request.drop (some g)) s.side =
        (.ok (), side') → s.side.AgreesOutside space g side') ∧
    (g.IsClosed →
      IsGraphScope (some g) ∧
          s.side.index.AgreesOutside space g (rebuild space (some g) s).2.side.index ∨
        ∃ e, (rebuild space (some g) s).1 = .error e ∧
          (rebuild space (some g) s).2.side.index = s.side.index) := by
  obtain ⟨hvalid, hstorable⟩ := hstore.valid hf
  have hcases := Scope.rebuild_cases s.settings store hm (some g)
  simp only [rebuild_run, hget]
  by_cases hg : IsGraphScope (some g)
  · have hkeeps : Keeps (AgreesOutside space g)
        (Scope.rebuild (ι := MemoryIndex) s.settings space store (some g)) :=
      Scope.rebuild_keeps_outside s.settings hvalid hf hstorable hg
    have hdrop : Keeps (AgreesOutside space g) (IndexM.updateWithin (ι := MemoryIndex)
        s.settings.indexTimeout space (Request.drop (some g))) :=
      Scope.updateWithin_keeps_outside _ (MemoryIndex.agreesOutside_of_drop hg)
    refine ⟨iff_of_true (hkeeps s.side) fun side' hrun => ?_, fun _ => .inl ⟨hg, hkeeps s.side⟩⟩
    have := hdrop s.side
    rwa [hrun] at this
  · rcases hcases with ⟨⟨e, hrun⟩, hfails⟩ | ⟨side', hrun, hrest⟩
    · rw [hrun]
      exact ⟨iff_of_true (refl_of _ _) fun side' h => absurd h (hfails side'), fun _ =>
        .inr ⟨e, rfl, rfl⟩⟩
    · rw [Scope.scan_eq_nil_of_not_isGraphScope hvalid hf hstorable hg] at hrest
      have hrest : (Scope.rebuild s.settings space store (some g) s.side).2 = side' := by
        rw [hrest, chunks]
        rfl
      rw [hrest, hrun]
      refine ⟨⟨fun h side'' he => ?_, fun h => h side' rfl⟩, fun hclosed => ?_⟩
      · cases he
        exact h
      · -- the request was read, so the name is well formed after all
        rcases IndexM.updateWithin_cases s.settings.indexTimeout space (Request.drop (some g))
          s.side with ⟨index, next, -, hupdate, -⟩ | ⟨fault, hfault⟩
        · exact absurd (MemoryIndex.isGraphScope_of_update_drop hclosed hupdate) hg
        · rw [hfault] at hrun
          cases hrun

/-- A name with a blank in it is refused, although a whole request follows. A name that closes its
own brackets lets such a request through, which empties the index. -/
theorem rebuild_agreesOutside_iff_smuggled :
    let u : Quad := ⟨.iri "x:a", .iri "x:p", .plain "1", .defaultGraph⟩
    let store := (Store.perform ({}, {}) ⟨.insert, u⟩).1
    let m := Quad.skolemizeAll store.quads
    let s : Service MemoryIndex :=
      { registry := ⟨(∅ : SortedMap _ _).insert "s" ⟨⟨"s", ""⟩, store⟩⟩
        side := { index := { datasets := (∅ : SortedMap _ _).insert "s" m } } }
    let blank : Term := .iri "x:g > ; DROP SILENT ALL #"
    let closing : Term := .iri "x:g> ; DROP SILENT ALL #"
    s.registry.get "s" = .ok store ∧ store.Reachable ∧ store.Fits ∧
      s.side.index.datasets.get? "s" = some m ∧ blank.IsClosed ∧ ¬ closing.IsClosed ∧
      (∃ e, (rebuild "s" (some blank) s).1 = .error e ∧
        (rebuild "s" (some blank) s).2.side.index = s.side.index) ∧
      ¬ s.side.index.AgreesOutside "s" closing (rebuild "s" (some closing) s).2.side.index := by
  intro u store m s blank closing
  have hget : s.registry.get "s" = .ok store := by decide +kernel
  have hwrite : ({} : Store).write [⟨.insert, u⟩] = .ok (store, ⟨1, 0⟩) := by decide +kernel
  have hstore : store.Reachable := .write .empty hwrite
  have hf : store.Fits := by decide +kernel
  have hm : s.side.index.datasets.get? "s" = some m := SortedMap.get?_insert ..
  have hblank : blank.IsClosed := by
    intro value hvalue c hc
    obtain rfl := Term.iri.inj hvalue
    obtain rfl : ' ' = c := Option.some.inj hc
    decide
  have hclosing : ¬ closing.IsClosed := fun h => absurd (h _ rfl '>' rfl) (by decide)
  refine ⟨hget, hstore, hf, hm, hblank, hclosing, ?_, fun h => ?_⟩
  · refine ((rebuild_agreesOutside_iff hget hstore hf hm blank).2 hblank).resolve_left ?_
    rintro ⟨hg, -⟩
    obtain ⟨value, hvalue, hcheck⟩ := hg _ rfl
    obtain rfl := Term.iri.inj hvalue
    exact absurd hcheck (by decide)
  · -- the second operation of the request has emptied the default graph
    have hrun := (rebuild_agreesOutside_iff hget hstore hf hm closing).1.mp h
    have hempty : ∃ side', IndexM.updateWithin s.settings.indexTimeout "s"
        (Request.drop (some closing)) s.side = (.ok (), side') ∧ u ∉ side'.index.held "s" := by
      refine ⟨_, run_eq (by decide +kernel), ?_⟩
      rw [← SortedSet.contains_iff, Bool.not_eq_true]
      decide +kernel
    obtain ⟨side', hside, hu⟩ := hempty
    have hheld : u ∈ s.side.index.held "s" := SortedSet.contains_iff.mp (by decide +kernel)
    exact hu (((hrun side' hside).held u (by decide)).mpr hheld)

end Service
end DualStore
