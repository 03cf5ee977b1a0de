import EchoEngine.Capability.DataAnalysis
import EchoEngine.Capability.TextTools
import EchoEngine.Memory.KeySets
import EchoEngine.Proofs.Exact
import EchoEngine.Proofs.Text.Keywords
import EchoEngine.Proofs.Text.Sentences

/-!
# The hypergraph of a text

Counting the terms of each sentence once gives both sums: that of the sizes of the sentences and that of the degrees
of the terms (`count_incidences`, `toFinset_incidences`).  Sentences lose no term of the text, so the nodes are the
terms of the whole text, and each figure of the report is one of the text and its sentences (`accounts_hypergraph`).
-/

namespace EchoEngine

open Std (ExtTreeSet)

/-! ### Sets of terms -/

namespace Text

theorem size_termSet (s : String) : (termSet s).size = (terms s).toFinset.card := by
  have hmem : (termSet s).toList.toFinset = (terms s).toFinset := by
    ext t
    rw [List.mem_toFinset, List.mem_toFinset, ExtTreeSet.mem_toList, mem_termSet]
  rw [← hmem, List.toFinset_card_of_nodup (KeySets.nodup_toList _), ExtTreeSet.length_toList]

theorem isEmpty_termSet (s : String) : (termSet s).isEmpty = (terms s).isEmpty := by
  rw [← ExtTreeSet.isEmpty_toList, Bool.eq_iff_iff, List.isEmpty_iff, List.isEmpty_iff,
    List.eq_nil_iff_forall_not_mem, List.eq_nil_iff_forall_not_mem]
  simp only [ExtTreeSet.mem_toList, mem_termSet]

end Text

namespace DataAnalysis

open Text

/-! ### Incidences -/

/-- The terms of each sentence of a text, each once. -/
def incidences (s : String) : List String :=
  (sentences s).flatMap fun sentence => (termSet sentence).toList

/-- How many sentences of a text hold a term. -/
def degree (s t : String) : Nat :=
  (sentences s).countP fun sentence => t ∈ terms sentence

/-- Sentences without terms have no incidences. -/
theorem flatMap_hyperedges (s : String) : (hyperedges s).flatMap ExtTreeSet.toList = incidences s := by
  rw [hyperedges, incidences]
  induction sentences s with
  | nil => rfl
  | cons sentence rest ih =>
    rw [List.map_cons, List.filter_cons, List.flatMap_cons, ← ih]
    split
    · rw [List.flatMap_cons]
    · rename_i hempty
      have hnil : (termSet sentence).toList = [] := by
        simpa [← List.isEmpty_iff, ExtTreeSet.isEmpty_toList] using hempty
      rw [hnil, List.nil_append]

theorem count_incidences (s t : String) : (incidences s).count t = degree s t := by
  rw [incidences, degree]
  induction sentences s with
  | nil => rfl
  | cons sentence rest ih =>
    rw [List.flatMap_cons, List.count_append, ih, List.countP_cons, (KeySets.nodup_toList _).count]
    simp only [ExtTreeSet.mem_toList, mem_termSet, decide_eq_true_eq]
    omega

theorem toFinset_incidences (s : String) : (incidences s).toFinset = (terms s).toFinset := by
  ext t
  rw [List.mem_toFinset, List.mem_toFinset, ← (segments s).terms, incidences, List.mem_flatMap, List.mem_flatMap]
  simp only [ExtTreeSet.mem_toList, mem_termSet]

theorem sum_degree (s : String) : ∑ t ∈ (terms s).toFinset, degree s t = (incidences s).length := by
  rw [← toFinset_incidences, ← List.sum_toFinset_count_eq_length]
  exact Finset.sum_congr rfl fun t _ => (count_incidences s t).symm

theorem sum_sizes (s : String) :
    ((sentences s).map fun sentence => (terms sentence).toFinset.card).sum = (incidences s).length := by
  rw [incidences, List.length_flatMap]
  simp only [ExtTreeSet.length_toList, size_termSet]

/-! ### Figures -/

theorem nodes_hypergraph (s : String) : (hypergraph s).nodes = (terms s).toFinset.card := by
  have hnodes : (hypergraph s).nodes = (degrees (hyperedges s)).size := by rw [hypergraph]
  rw [hnodes, degrees, ← Std.ExtTreeMap.length_toList, length_toList_tally, flatMap_hyperedges, toFinset_incidences]

theorem hyperedges_hypergraph (s : String) :
    (hypergraph s).hyperedges = (sentences s).countP fun sentence => !(terms sentence).isEmpty := by
  have hedges : (hypergraph s).hyperedges = (hyperedges s).length := rfl
  rw [hedges, hyperedges, List.filter_map, List.length_map, List.countP_eq_length_filter]
  simp only [Function.comp_def, isEmpty_termSet]

theorem incidences_eq_sum (s : String) :
    (hypergraph s).incidences = ((hyperedges s).map ExtTreeSet.size).sum :=
  List.sum_eq_foldl.symm

theorem incidences_hypergraph (s : String) : (hypergraph s).incidences = (incidences s).length := by
  rw [incidences_eq_sum, ← flatMap_hyperedges, List.length_flatMap]
  simp only [ExtTreeSet.length_toList]

theorem leads_hubs (s : String) : Leads (hypergraph s).hubs (terms s).toFinset (degree s) 5 := by
  have hleads := leads_take ((hyperedges s).flatMap ExtTreeSet.toList) 5
  have hdegree : (incidences s).count = degree s := funext (count_incidences s)
  rw [flatMap_hyperedges, toFinset_incidences, hdegree, ← flatMap_hyperedges] at hleads
  exact hleads

/-! ### Bounds -/

/-- A hyperedge has some of the nodes. -/
theorem size_mem_Icc (s : String) : ∀ edge ∈ hyperedges s, edge.size ∈ Set.Icc 1 (terms s).toFinset.card := by
  intro edge h
  rw [hyperedges, List.mem_filter] at h
  obtain ⟨hmem, hne⟩ := h
  obtain ⟨sentence, hsentence, rfl⟩ := List.mem_map.1 hmem
  rw [isEmpty_termSet] at hne
  have hsubset : (terms sentence).toFinset ⊆ (terms s).toFinset := by
    intro t ht
    rw [List.mem_toFinset] at ht
    rw [List.mem_toFinset, ← (segments s).terms, List.mem_flatMap]
    exact ⟨sentence, hsentence, ht⟩
  rw [size_termSet]
  refine ⟨Finset.card_pos.2 ?_, Finset.card_le_card hsubset⟩
  simpa using hne

theorem nodes_le_incidences (s : String) : (hypergraph s).nodes ≤ (hypergraph s).incidences := by
  rw [nodes_hypergraph, incidences_hypergraph, ← toFinset_incidences]
  exact List.toFinset_card_le _

theorem hyperedges_le_incidences (s : String) : (hypergraph s).hyperedges ≤ (hypergraph s).incidences := by
  have hone : ∀ n ∈ (hyperedges s).map ExtTreeSet.size, 1 ≤ n :=
    List.forall_mem_map.2 fun edge h => (size_mem_Icc s edge h).1
  have hle := List.length_le_sum_of_one_le _ hone
  rwa [List.length_map, ← incidences_eq_sum] at hle

theorem incidences_le_mul (s : String) :
    (hypergraph s).incidences ≤ (hypergraph s).nodes * (hypergraph s).hyperedges := by
  have hall : ∀ n ∈ (hyperedges s).map ExtTreeSet.size, n ≤ (terms s).toFinset.card :=
    List.forall_mem_map.2 fun edge h => (size_mem_Icc s edge h).2
  have hle := List.sum_le_card_nsmul _ _ hall
  rwa [List.length_map, ← incidences_eq_sum, smul_eq_mul, mul_comm, ← nodes_hypergraph] at hle

theorem nodes_pos_iff (s : String) : 0 < (hypergraph s).nodes ↔ terms s ≠ [] := by
  rw [nodes_hypergraph, Finset.card_pos, List.toFinset_nonempty_iff]

/-! ### Quotients -/

/-- The mean size of a hyperedge is a quotient of two figures, and zero if there is nothing to divide by. -/
theorem meanEdgeSize_eq (g : Hypergraph) : (g.meanEdgeSize : Exact) = .ofReal (g.incidences / g.hyperedges) := by
  rw [Hypergraph.meanEdgeSize]
  split
  · rename_i h
    norm_num [h]
  · rename_i h
    exact Exact.ofReal_div_eq_ofReal_iff.2 ⟨Nat.cast_ne_zero.2 h, rfl⟩

/-- The density is a quotient of two figures, and zero if there is nothing to divide by. -/
theorem density_eq (g : Hypergraph) :
    (g.density : Exact) = .ofReal (g.incidences / (g.nodes * g.hyperedges : ℕ)) := by
  rw [Hypergraph.density]
  split
  · rename_i h
    rcases h with h | h <;> norm_num [h]
  · rename_i h
    rw [not_or] at h
    exact Exact.ofReal_div_eq_ofReal_iff.2 ⟨Nat.cast_ne_zero.2 (Nat.mul_ne_zero h.1 h.2), rfl⟩

theorem within_meanEdgeSize {g : Hypergraph} (hpos : 0 < g.hyperedges) (hle : g.hyperedges ≤ g.incidences) :
    (g.meanEdgeSize : Exact).Within (Set.Ici 1) := by
  rw [meanEdgeSize_eq, Exact.within_ofReal, Set.mem_Ici, one_le_div (Nat.cast_pos.2 hpos)]
  exact Nat.cast_le.2 hle

theorem within_density {g : Hypergraph} (hpos : 0 < g.incidences) (hle : g.incidences ≤ g.nodes * g.hyperedges) :
    (g.density : Exact).Within (Set.Ioc 0 1) := by
  have hpos' : (0 : ℝ) < g.incidences := Nat.cast_pos.2 hpos
  have hle' : (g.incidences : ℝ) ≤ (g.nodes * g.hyperedges : ℕ) := Nat.cast_le.2 hle
  have hpairs := hpos'.trans_le hle'
  rw [density_eq, Exact.within_ofReal]
  exact ⟨div_pos hpos' hpairs, (div_le_one hpairs).2 hle'⟩

/-- The figures of a hypergraph are those of a text: its nodes are the distinct terms, its hyperedges the sentences
with a term, and its hubs lead the terms by how many sentences hold them. -/
structure Hypergraph.Accounts (g : Hypergraph) (s : String) : Prop where
  nodes : g.nodes = (terms s).toFinset.card
  distinctTerms : g.nodes = (TextTools.stats s).distinctTerms
  hyperedges : g.hyperedges = (sentences s).countP fun sentence => !(terms sentence).isEmpty
  degrees : ∑ t ∈ (terms s).toFinset, degree s t = g.incidences
  sizes : ((sentences s).map fun sentence => (terms sentence).toFinset.card).sum = g.incidences
  max_le : max g.nodes g.hyperedges ≤ g.incidences
  le_mul : g.incidences ≤ g.nodes * g.hyperedges
  hubs : Leads g.hubs (terms s).toFinset (degree s) 5
  meanEdgeSize : (g.meanEdgeSize : Exact) = .ofReal (g.incidences / g.hyperedges)
  density : (g.density : Exact) = .ofReal (g.incidences / (g.nodes * g.hyperedges : ℕ))
  of_ne_nil : terms s ≠ [] → (g.meanEdgeSize : Exact).Within (Set.Ici 1) ∧ (g.density : Exact).Within (Set.Ioc 0 1)
  of_nil : terms s = [] → g = ⟨0, 0, 0, []⟩ ∧ (g.meanEdgeSize : Exact) = 0.0 ∧ (g.density : Exact) = 0.0

theorem hypergraph_of_nil {s : String} (h : terms s = []) : hypergraph s = ⟨0, 0, 0, []⟩ := by
  have hnodes : (hypergraph s).nodes = 0 := by
    rw [nodes_hypergraph, h]
    rfl
  have hincidences : (hypergraph s).incidences = 0 := by
    have hle := incidences_le_mul s
    rw [hnodes] at hle
    omega
  have hedges : (hypergraph s).hyperedges = 0 := by
    have hle := hyperedges_le_incidences s
    omega
  have hhubs : (hypergraph s).hubs = [] := by
    have hlength := (leads_hubs s).length
    rw [h] at hlength
    exact List.length_eq_zero_iff.1 hlength
  cases hgraph : hypergraph s
  simp_all

theorem accounts (s : String) : (hypergraph s).Accounts s where
  nodes := nodes_hypergraph s
  distinctTerms := (nodes_hypergraph s).trans (size_termSet s).symm
  hyperedges := hyperedges_hypergraph s
  degrees := (sum_degree s).trans (incidences_hypergraph s).symm
  sizes := (sum_sizes s).trans (incidences_hypergraph s).symm
  max_le := max_le (nodes_le_incidences s) (hyperedges_le_incidences s)
  le_mul := incidences_le_mul s
  hubs := leads_hubs s
  meanEdgeSize := meanEdgeSize_eq _
  density := density_eq _
  of_ne_nil := by
    intro hterms
    have hnodes := (nodes_pos_iff s).2 hterms
    have hincidences := hnodes.trans_le (nodes_le_incidences s)
    have hpairs := hincidences.trans_le (incidences_le_mul s)
    exact ⟨within_meanEdgeSize (Nat.pos_of_mul_pos_left hpairs) (hyperedges_le_incidences s),
      within_density hincidences (incidences_le_mul s)⟩
  of_nil := by
    intro hterms
    rw [hypergraph_of_nil hterms]
    exact ⟨rfl, rfl, rfl⟩

/-! ### The report -/

/-- The members of a report that show a hypergraph. -/
def Hypergraph.members (g : Hypergraph) : List (String × Json) :=
  [("density", .ofFloat g.density),
    ("hubs", .arr (g.hubs.map fun hub => .obj [("degree", .int hub.2), ("term", .str hub.1)])),
    ("hyperedges", .int g.hyperedges), ("mean_edge_size", .ofFloat g.meanEdgeSize), ("nodes", .int g.nodes)]

theorem subset_sortMembers {members : List (String × Json)} (h : (members.map Prod.fst).Nodup) :
    members ⊆ Json.sortMembers members := by
  rw [List.Nodup, List.pairwise_map] at h
  rintro ⟨key, value⟩ hmem
  rw [Json.sortMembers, Std.ExtTreeMap.mem_toList_iff_getElem?_eq_some]
  refine Std.ExtTreeMap.getElem?_ofList_of_mem Std.compare_self ?_ hmem
  exact h.imp fun hne heq => hne (Std.compare_eq_iff_eq.1 heq)

theorem members_subset_of_run {q : Request} {p : Parameters} {s : String}
    (hoperation : Handler.operation "data_analysis" operations p = .ok "hypergraph_analysis")
    (htext : q.text p = .ok s) :
    ∃ members, plugin.run q p = some (.json (.obj members)) ∧ (hypergraph s).members ⊆ members := by
  obtain ⟨integration, hkeys, hreply⟩ : ∃ integration : List (String × Json),
      List.Sublist (integration.map Prod.fst) ["integration"] ∧ reply q p =
        .ok (.json (addMembers (hypergraph s).toJson (("operation", .str "hypergraph_analysis") :: integration))) := by
    simp only [reply, hoperation, htext, bind, Except.bind, pure, Except.pure, if_true]
    split
    · exact ⟨_, List.Sublist.refl _, rfl⟩
    · exact ⟨[], List.nil_sublist _, rfl⟩
  have hnames : ["density", "hubs", "hyperedges", "mean_edge_size", "nodes", "operation", "integration"].Nodup := by
    decide
  have hnodup : (((hypergraph s).members ++ ("operation", .str "hypergraph_analysis") :: integration).map
      Prod.fst).Nodup := by
    refine hnames.sublist ?_
    rw [List.map_append, List.map_cons]
    exact (hkeys.cons_cons "operation").append_left ["density", "hubs", "hyperedges", "mean_edge_size", "nodes"]
  exact ⟨_, congrArg (fun r => some (Reply.ofExcept id r)) hreply,
    List.Subset.trans (List.subset_append_left _ _) (subset_sortMembers hnodup)⟩

/-- The plugin reports the figures of the text that it is asked for, and they are the right ones. -/
theorem accounts_hypergraph (s : String) :
    (hypergraph s).Accounts s ∧
    ∀ q p, Handler.operation "data_analysis" operations p = .ok "hypergraph_analysis" → q.text p = .ok s →
      ∃ members, plugin.run q p = some (.json (.obj members)) ∧ (hypergraph s).members ⊆ members :=
  ⟨accounts s, fun _ _ => members_subset_of_run⟩

/-- The parameters that ask for a hypergraph. -/
def hypergraphParameters : Parameters :=
  Parameters.empty.insert "type" (.text "hypergraph_analysis")

def sampleSentences : String :=
  "Echo trees grow. Trees remember echoes. 1, 2!"

theorem accounts_hypergraph_sampleRequest :
    Handler.operation "data_analysis" operations hypergraphParameters = .ok "hypergraph_analysis" ∧
    (Request.detached sampleSentences).text hypergraphParameters = .ok sampleSentences ∧
    (hypergraph sampleSentences).Accounts sampleSentences ∧
    ∃ members, plugin.run (.detached sampleSentences) hypergraphParameters = some (.json (.obj members)) ∧
      (hypergraph sampleSentences).members ⊆ members := by
  have hoperation : Handler.operation "data_analysis" operations hypergraphParameters =
      .ok "hypergraph_analysis" := by rfl
  have htext : (Request.detached sampleSentences).text hypergraphParameters = .ok sampleSentences := by rfl
  obtain ⟨haccounts, hreports⟩ := accounts_hypergraph sampleSentences
  exact ⟨hoperation, htext, haccounts, hreports _ _ hoperation htext⟩

end DataAnalysis

end EchoEngine
