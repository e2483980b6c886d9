import DualStore.Index.Server
import DualStore.Proofs.ReadQueries
import DualStore.Proofs.Choices
import Mathlib.Data.Finset.Card

/-! What queries answer. The form that is told from a text says whether its query answers triples,
and so which format the server is asked for (`Query.answer_as_detected`). A selection that counts
gives the number of rows of the selection that lists; of distinct rows it gives that number as long
as no two solutions differ in blank nodes alone (`Query.counts_as_listed`). -/

namespace DualStore

variable {src : Source} {text : String} {q : Query}

/-! ## Forms -/

/-- The format that an answer is written in. -/
def Answer.format : Answer → String
  | triples _ => "application/n-triples"
  | rows _ | boolean _ => "application/sparql-results+json"

namespace Query

theorem answer_eq_triples_iff (q : Query) (src : Source) (next : Nat) :
    (∃ ts, (q.answer src next).1 = .triples ts) ↔ q.form.returnsTriples = true := by
  cases q with
  | select | ask => exact iff_of_false (fun ⟨_, h⟩ => by cases h) Bool.false_ne_true
  | construct | describe => exact iff_of_true ⟨_, rfl⟩ rfl

theorem answerFormat_form (q : Query) (src : Source) (next : Nat) :
    Server.answerFormat q.form = (q.answer src next).1.format := by
  cases q <;> rfl

/-- The form that is told from the text of a query that can be read is the form of this query, over
every source its answer has triples exactly if that form returns triples, and a server is asked for
the format that the answer is written in. -/
theorem answer_as_detected (h : ofText text = .ok q) :
    ∃ form, QueryForm.detect text = .ok form ∧ form = q.form ∧ ∀ src next,
      ((∃ ts, (q.answer src next).1 = .triples ts) ↔ form.returnsTriples = true) ∧
      ∀ (server : Server) space,
        (server.queryRequest space form text).accept = (q.answer src next).1.format :=
  ⟨q.form, QueryForm.detect_of_ofText h, rfl, fun src next =>
    ⟨q.answer_eq_triples_iff src next, fun _ _ => q.answerFormat_form src next⟩⟩

/-- A comment and a prefix spelled like keywords, and the form in small letters. -/
theorem answer_as_detected_prefix :
    let text := "# ASK\nPREFIX select: <x:select> construct WHERE \x7b?s select:p ?o\x7d"
    let t : TriplePattern := ⟨.var "s", .term (.iri "x:selectp"), .var "o"⟩
    let q : Query := .construct [t] [.triple t] none
    ofText text = .ok q ∧ ∃ form, QueryForm.detect text = .ok form ∧ form = q.form ∧
      ∀ src next, ((∃ ts, (q.answer src next).1 = .triples ts) ↔ form.returnsTriples = true) ∧
        ∀ (server : Server) space,
          (server.queryRequest space form text).accept = (q.answer src next).1.format := by
  intro text t q
  have htokens : Token.ofText text = .ok [.word "PREFIX", .name "select" "", .iri "x:select",
      .word "construct", .word "WHERE", .punct '\x7b', .var "s", .name "select" "p", .var "o",
      .punct '\x7d'] := by decide +kernel
  have hq : ofText text = .ok q := by
    rw [ofText, htokens]
    change ofTokens _ = .ok q
    with_unfolding_all rfl
  exact ⟨hq, answer_as_detected hq⟩

end Query

/-! ## Counts -/

/-- A variable that is not written as such, but stands for a blank node. -/
def Node.isHidden : Node → Bool
  | var v => Query.isHiddenVar v
  | term _ => false

namespace Solution

variable {sol sol' : Solution} {n : Node} {t : Term}

/-- What a solution shows in a row that lists it. -/
def shown (sol : Solution) : Solution := sol.filter fun v _ => !Query.isHiddenVar v

theorem get?_shown (v : String) :
    sol.shown.get? v = if Query.isHiddenVar v = true then none else sol.get? v := by
  rw [shown, SortedMap.get?_filter]
  cases sol.get? v <;> cases Query.isHiddenVar v <;> rfl

/-- A node that is not hidden adds nothing that is. -/
theorem shown_of_unify (hn : n.isHidden = false) (h : sol.shown = sol)
    (hsol : sol.unify n t = some sol') : sol'.shown = sol' := by
  obtain ⟨-, -, hvars⟩ := unify_spec hsol
  refine SortedMap.ext fun v => ?_
  rw [get?_shown]
  split
  next hv =>
    refine (Option.eq_none_iff_forall_ne_some.mpr fun u hu => ?_).symm
    rcases hvars v (Option.isSome_of_eq_some hu) with hold | rfl
    · rw [← h, get?_shown, if_pos hv] at hold
      cases hold
    · exact absurd hv (Bool.eq_false_iff.mp hn)
  next => rfl

end Solution

theorem TriplePattern.shown_of_mem_extend {t : TriplePattern} {active : Option Node}
    (ha : ∀ n ∈ active, n.isHidden = false) (ht : ∀ n ∈ t.nodes, n.isHidden = false)
    {sol sol' : Solution} (h : sol.shown = sol) (hsol : sol' ∈ t.extend src active sol) :
    sol'.shown = sol' := by
  obtain ⟨q, -, hsol⟩ := List.mem_filterMap.mp hsol
  refine keeps_of_unify (P := fun sol => sol.shown = sol)
    (fun n hn u _ _ _ => Solution.shown_of_unify ?_) h hsol
  exact (List.mem_append.mp hn).elim (fun hn => ha n (Option.mem_toList.mp hn)) (ht n)

/-- The solutions of a pattern without blank nodes are shown as a whole. -/
theorem Group.shown_of_mem_solutions {g : Group} (hg : ∀ n ∈ groupNodes g, n.isHidden = false) :
    ∀ sol ∈ g.solutions src, sol.shown = sol := by
  have hties : src.Ties src (·.isHidden = false) fun sols _ => ∀ sol ∈ sols, sol.shown = sol :=
    { nil := List.forall_mem_nil _
      append := fun h h' => List.forall_mem_append.mpr ⟨h, h'⟩
      triple := fun ha ht hsols _ hsol =>
        have ⟨_, hlow, hsol⟩ := List.mem_flatMap.mp hsol
        TriplePattern.shown_of_mem_extend ha ht (hsols _ hlow) hsol }
  exact hties.solutions (fun _ hsol => List.mem_singleton.mp hsol ▸ rfl) hg

/-- The answer that gives a number is one row with this number. -/
def Answer.ofCount (var : String) (n : Nat) : Answer :=
  .rows [(∅ : Solution).insert var (Query.countTerm n)]

namespace Query

theorem answer_select_all (src : Source) (g : Group) (distinct : Bool) (next : Nat) :
    (select distinct .all g none 0).answer src next =
      (.rows (if distinct then ((g.solutions src).map Solution.shown).eraseDups
        else (g.solutions src).map Solution.shown), next) := rfl

theorem answer_select_count (src : Source) (g : Group) (var : String) (outer distinct : Bool)
    (next : Nat) : (select outer (.count var distinct) g none 0).answer src next =
      (.ofCount var (if distinct then (g.solutions src).eraseDups else g.solutions src).length,
        next) := by
  cases outer with
  | false => rfl
  | true =>
    change (Answer.rows (List.eraseDups [_]), next) = _
    rw [List.eraseDups_cons]
    rfl

/-- Counting and listing. Over every source and for every pattern as many solutions are counted as
rows are listed. Of distinct solutions never fewer are counted than distinct rows are listed, and
as many exactly if no two solutions differ in what stands for blank nodes alone, as is the case
where the pattern has no blank nodes. -/
theorem counts_as_listed (src : Source) (g : Group) (var : String) (outer : Bool) (next : Nat) :
    ∃ rows distinctRows n,
      (select false .all g none 0).answer src next = (.rows rows, next) ∧
      (select true .all g none 0).answer src next = (.rows distinctRows, next) ∧
      (select outer (.count var false) g none 0).answer src next =
        (.ofCount var rows.length, next) ∧
      (select outer (.count var true) g none 0).answer src next = (.ofCount var n, next) ∧
      distinctRows.length ≤ n ∧
      (n = distinctRows.length ↔ ∀ sol ∈ g.solutions src, ∀ sol' ∈ g.solutions src,
        sol.shown = sol'.shown → sol = sol') ∧
      ((∀ n ∈ groupNodes g, n.isHidden = false) → n = distinctRows.length) := by
  have hiff := length_eraseDups_map_eq_iff (f := Solution.shown) (l := g.solutions src)
  refine ⟨_, _, _, answer_select_all src g false next, answer_select_all src g true next, ?_,
    answer_select_count src g var outer true next, length_eraseDups_map_le, eq_comm.trans hiff,
    fun hg => (hiff.mpr fun sol hsol sol' hsol' heq => ?_).symm⟩
  · rw [answer_select_count, if_neg Bool.false_ne_true, if_neg Bool.false_ne_true, List.length_map]
  · rwa [Group.shown_of_mem_solutions hg sol hsol, Group.shown_of_mem_solutions hg sol' hsol']
      at heq

/-- Two subjects with the same object: without a blank node there are two distinct rows. -/
theorem counts_as_listed_subjects :
    let src : Source := .ofSet (.ofList [⟨.iri "x:a", .iri "x:p", .plain "1", .defaultGraph⟩,
      ⟨.iri "x:b", .iri "x:p", .plain "1", .defaultGraph⟩])
    let g : Group := [.triple ⟨.var "s", .term (.iri "x:p"), .var "o"⟩]
    (∀ n ∈ groupNodes g, n.isHidden = false) ∧ ∃ distinctRows,
      (select true .all g none 0).answer src 0 = (.rows distinctRows, 0) ∧
      distinctRows.length = 2 ∧
      (select false (.count "n" true) g none 0).answer src 0 = (.ofCount "n" 2, 0) := by
  intro src g
  have hg : ∀ n ∈ groupNodes g, n.isHidden = false := by decide
  obtain ⟨rows, distinctRows, n, -, hdistinct, -, hcount, -, -, hn⟩ :=
    counts_as_listed src g "n" false 0
  have hlength : distinctRows.length = 2 := by
    obtain rfl := Answer.rows.inj (congrArg Prod.fst hdistinct)
    decide +kernel
  exact ⟨hg, distinctRows, hdistinct, hlength, by rw [hcount, hn hg, hlength]⟩

/-- With a blank node for the subject two solutions are counted, and one row is listed. -/
example :
    let src : Source := .ofSet (.ofList [⟨.iri "x:a", .iri "x:p", .plain "1", .defaultGraph⟩,
      ⟨.iri "x:b", .iri "x:p", .plain "1", .defaultGraph⟩])
    let g : Group := [.triple ⟨.var "_:s", .term (.iri "x:p"), .var "o"⟩]
    (select false (.count "n" true) g none 0).answer src 0 = (.ofCount "n" 2, 0) ∧
      (select true .all g none 0).answer src 0 =
        (.rows [(∅ : Solution).insert "o" (.plain "1")], 0) := by
  decide +kernel

end Query
end DualStore
