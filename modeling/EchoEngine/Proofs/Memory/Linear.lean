import EchoEngine.Proofs.Memory.EdgeOrigins
import Mathlib.Algebra.Order.BigOperators.Group.Finset
import Mathlib.Algebra.Order.BigOperators.Group.List

/-!
# How many edges there are

The number of edges grows with the number of files and of their topics (`linear_replay`).  A topic may become
common after it has linked files, so its carriers of now are too many to count.  What counts is its span: the
files that carried it when it was distinctive for the last time (`span`).  A span is as small as the fanout
allows, and it includes both ends of every edge that the topic accounts for, early ones too, because carriers
only become more.
-/

namespace EchoEngine

open FoldPlan MemoryEvent

variable {α : Type}

namespace MemoryGraph

/-! ### Nodes and edges of a kind -/

/-- The neighbors of a key that are of a kind. -/
def neighborsOf (g : MemoryGraph α) (key : String) (kind : NodeKind) : List String :=
  (g.neighbors key).filter fun k => g.kind? k = some kind

/-- The nodes of a kind with their keys. -/
def nodesOf (g : MemoryGraph α) (kind : NodeKind) : List (String × MemoryNode α) :=
  g.nodes.toList.filter (·.2.kind = kind)

theorem mem_neighborsOf {g : MemoryGraph α} {key k : String} {kind : NodeKind} :
    k ∈ g.neighborsOf key kind ↔ g.adjacent key k ∧ g.kind? k = some kind := by
  rw [neighborsOf, List.mem_filter, mem_neighbors, decide_eq_true_eq]

theorem nodup_neighborsOf (g : MemoryGraph α) (key : String) (kind : NodeKind) :
    (g.neighborsOf key kind).Nodup :=
  (nodup_neighbors g key).filter _

theorem mem_nodesOf {g : MemoryGraph α} {key : String} {n : MemoryNode α} {kind : NodeKind} :
    (key, n) ∈ g.nodesOf kind ↔ g.node? key = some n ∧ n.kind = kind := by
  rw [nodesOf, List.mem_filter, Std.ExtTreeMap.mem_toList_iff_getElem?_eq_some, decide_eq_true_eq]
  rfl

theorem exists_mem_nodesOf {g : MemoryGraph α} {key : String} {kind : NodeKind}
    (h : g.kind? key = some kind) : ∃ n, (key, n) ∈ g.nodesOf kind := by
  obtain ⟨n, hn, hkind⟩ := Option.map_eq_some_iff.1 h
  exact ⟨n, mem_nodesOf.2 ⟨hn, hkind⟩⟩

/-- The edges that hang keys on the ones above them. -/
private def hangingEdges (nodes : List (String × MemoryNode α)) : List (Sym2 String) :=
  nodes.map fun p => s(p.1, parentKey p.1)

/-- The edges from files to files. -/
private def fileEdges (g : MemoryGraph α) : List (Sym2 String) :=
  (g.nodesOf .file).flatMap fun p => (g.neighborsOf p.1 .file).map fun b => s(p.1, b)

/-- The edges among files and directories. -/
def treeEdges (g : MemoryGraph α) : Set (Sym2 String) :=
  {e ∈ g.edges | ∀ key ∈ e, g.kind? key = some .directory ∨ g.kind? key = some .file}

private theorem mem_hangingEdges {g : MemoryGraph α} {key : String}
    (h : g.kind? key = some .directory ∨ g.kind? key = some .file) :
    s(key, parentKey key) ∈ hangingEdges (g.nodesOf .file ++ g.nodesOf .directory) := by
  rw [hangingEdges, List.mem_map]
  rcases h with h | h
  · obtain ⟨n, hn⟩ := exists_mem_nodesOf h
    exact ⟨(key, n), List.mem_append_right _ hn, rfl⟩
  · obtain ⟨n, hn⟩ := exists_mem_nodesOf h
    exact ⟨(key, n), List.mem_append_left _ hn, rfl⟩

/-! ### Spans -/

instance (g : MemoryGraph α) (topic : String) : Decidable (g.Distinctive topic) :=
  inferInstanceAs (Decidable (_ ≤ _))

def carriersOf (g : MemoryGraph α) (topic : String) : Finset String :=
  (g.carriers.members topic).toList.toFinset

theorem mem_carriersOf {g : MemoryGraph α} {topic key : String} :
    key ∈ g.carriersOf topic ↔ key ∈ g.carriers.members topic := by
  rw [carriersOf, List.mem_toFinset, Std.ExtTreeSet.mem_toList]

theorem card_carriersOf (g : MemoryGraph α) (topic : String) :
    (g.carriersOf topic).card = (g.carriers.members topic).size := by
  rw [carriersOf, List.toFinset_card_of_nodup (KeySets.nodup_toList _), Std.ExtTreeSet.length_toList]

/-- What topics span after a step, given what they have spanned before it. -/
def span (g : MemoryGraph α) (before : String → Finset String) (topic : String) : Finset String :=
  if g.Distinctive topic then g.carriersOf topic else before topic

/-- Every edge between files is accounted for by a topic that spans both. -/
structure Spanned (es : List (MemoryEvent α)) (g : MemoryGraph α) (spans : String → Finset String) : Prop where
  card_le : ∀ t, (spans t).card ≤ g.settings.maxTopicFanout
  carrier : ∀ t, ∀ key ∈ spans t, key ∈ g.carriers.members t
  edge : ∀ a b, IsPath a → IsPath b → a ∉ foldedDirectories es → b ∉ foldedDirectories es →
    g.adjacent a b → ∃ t, a ∈ spans t ∧ b ∈ spans t

theorem spanned_empty (settings : GraphSettings) : Spanned [] (empty settings : MemoryGraph α) fun _ => ∅ where
  card_le := by simp
  carrier := by simp
  edge a b _ _ _ _ h := by simp [empty, adjacent_iff] at h

theorem Spanned.of_sameOnPaths {es es' : List (MemoryEvent α)} {g g' : MemoryGraph α}
    {spans : String → Finset String} (h : Spanned es g spans)
    (hsame : g.SameOnPaths g') (hes : foldedDirectories es' = foldedDirectories es) :
    Spanned es' g' spans where
  card_le t := by
    rw [hsame.settings]
    exact h.card_le t
  carrier t key hkey := by
    rw [hsame.carriers]
    exact h.carrier t key hkey
  edge a b ha hb hna hnb hadjacent := by
    rw [hes] at hna hnb
    exact h.edge a b ha hb hna hnb ((hsame.adjacent a b ha hb).1 hadjacent)

/-- The topics of a node that span its key. -/
private def spanning (spans : String → Finset String) (key : String) (n : MemoryNode α) : Finset String :=
  n.topics.toList.toFinset.filter fun t => key ∈ spans t

private theorem card_biUnion_spanning_le {spans : String → Finset String} {fanout : Nat}
    (h : ∀ t, (spans t).card ≤ fanout) (key : String) (n : MemoryNode α) :
    ((spanning spans key n).biUnion fun t => (spans t).erase key).card ≤ n.topics.size * (fanout - 1) := by
  have hspan : ∀ t ∈ spanning spans key n, ((spans t).erase key).card ≤ fanout - 1 := by
    intro t ht
    rw [Finset.card_erase_of_mem (Finset.mem_filter.1 ht).2]
    exact Nat.sub_le_sub_right (h t) 1
  have htopics : (spanning spans key n).card ≤ n.topics.size := by
    rw [← Std.ExtTreeSet.length_toList]
    exact (Finset.card_filter_le _ _).trans (List.toFinset_card_le _)
  exact (Finset.card_biUnion_le_card_mul _ _ _ hspan).trans (Nat.mul_le_mul_right _ htopics)

variable [Scalar α] {settings : GraphSettings}

theorem Spanned.fold {es : List (MemoryEvent α)} {spans : String → Finset String}
    (h : Spanned es (replay settings es) spans) {s : Snapshot α} (hes : ∀ e ∈ es ++ [.fold s], e.Rooted) :
    Spanned (es ++ [.fold s]) (replay settings (es ++ [.fold s]))
      ((replay settings (es ++ [.fold s])).span spans) := by
  have hextends : (replay settings es).Extends (replay settings (es ++ [.fold s])) := by
    rw [replay_concat]
    exact extends_fold _ _
  refine ⟨?_, ?_, ?_⟩
  · intro t
    unfold span
    split
    · rename_i hdistinctive
      rw [card_carriersOf]
      exact hdistinctive
    · rw [hextends.settings]
      exact h.card_le t
  · intro t key hkey
    unfold span at hkey
    split at hkey
    · exact mem_carriersOf.1 hkey
    · exact hextends.carrier t key (h.carrier t key hkey)
  · intro a b ha hb hna hnb hadjacent
    rcases adjacent_of_replay_fold hes hna hnb hadjacent with hbefore | hpartners
    · obtain ⟨t, hta, htb⟩ := h.edge a b ha hb
        (fun hd => hna (foldedDirectories_subset_append _ _ hd))
        (fun hd => hnb (foldedDirectories_subset_append _ _ hd)) hbefore
      refine ⟨t, ?_⟩
      unfold span
      split
      · exact ⟨mem_carriersOf.2 (hextends.carrier t a (h.carrier t a hta)),
          mem_carriersOf.2 (hextends.carrier t b (h.carrier t b htb))⟩
      · exact ⟨hta, htb⟩
    · obtain ⟨t, hdistinctive, hta, htb⟩ := hpartners.nonempty
      refine ⟨t, ?_⟩
      rw [span, if_pos hdistinctive]
      exact ⟨mem_carriersOf.2 hta, mem_carriersOf.2 htb⟩

/-- Every run has spans that account for its edges between files. -/
theorem exists_spanned (settings : GraphSettings) {es : List (MemoryEvent α)} (hes : ∀ e ∈ es, e.Rooted) :
    ∃ spans, Spanned es (replay settings es) spans := by
  induction es using List.reverseRecOn with
  | nil => exact ⟨_, spanned_empty settings⟩
  | append_singleton es e ih =>
    have hold : ∀ e ∈ es, e.Rooted := (List.forall_mem_append.1 hes).1
    obtain ⟨spans, hspans⟩ := ih hold
    cases e with
    | fold s => exact ⟨_, hspans.fold hes⟩
    | record agent task summary =>
      refine ⟨spans, hspans.of_sameOnPaths ?_ (foldedDirectories_concat_record es agent task summary)⟩
      rw [replay_concat]
      exact sameOnPaths_record (sound_replay settings hold) agent task summary

/-! ### Neighbors of a file -/

section

variable {es : List (MemoryEvent α)}

/-- A file has no more file neighbors than its topics span besides it. -/
theorem length_neighborsOf_file_le (hes : ∀ e ∈ es, e.Rooted) (hsep : Separate es) {f : String}
    {n : MemoryNode α} (hn : (replay settings es).node? f = some n) (hkind : n.kind = .file) :
    ((replay settings es).neighborsOf f .file).length
      ≤ n.topics.size * (settings.maxTopicFanout - 1) := by
  have hsorted := sorted_replay settings hes hsep
  obtain ⟨spans, hspans⟩ := exists_spanned settings hes
  have hf : (replay settings es).kind? f = some .file := by simp [kind?, hn, hkind]
  have hpath := hsorted.isPath hes (.inr hf)
  -- each neighbor is spanned by one of the topics that span the file
  have hsubset : ((replay settings es).neighborsOf f .file).toFinset
      ⊆ (spanning spans f n).biUnion fun t => (spans t).erase f := by
    intro b hb
    rw [List.mem_toFinset, mem_neighborsOf] at hb
    obtain ⟨hadjacent, hkindb⟩ := hb
    obtain ⟨t, htf, htb⟩ := hspans.edge f b hpath (hsorted.isPath hes (.inr hkindb))
      ((hsorted.file_iff f).1 hf).2 ((hsorted.file_iff b).1 hkindb).2 hadjacent
    have htopic : t ∈ n.topics := by
      obtain ⟨n', hn', ht⟩ := ((partnered_replay settings hes).1 f t hpath).1 (hspans.carrier t f htf)
      rw [hn] at hn'
      cases hn'
      exact ht
    have hne : b ≠ f := by
      rintro rfl
      exact (sound_replay settings hes).irreflexive b hadjacent
    rw [Finset.mem_biUnion]
    refine ⟨t, ?_, Finset.mem_erase.2 ⟨hne, htb⟩⟩
    rw [spanning, Finset.mem_filter, List.mem_toFinset, Std.ExtTreeSet.mem_toList]
    exact ⟨htopic, htf⟩
  have hcard : ∀ t, (spans t).card ≤ settings.maxTopicFanout := by
    intro t
    have hle := hspans.card_le t
    rwa [settings_replay settings hes] at hle
  calc ((replay settings es).neighborsOf f .file).length
      = ((replay settings es).neighborsOf f .file).toFinset.card :=
        (List.toFinset_card_of_nodup (nodup_neighborsOf _ _ _)).symm
    _ ≤ ((spanning spans f n).biUnion fun t => (spans t).erase f).card := Finset.card_le_card hsubset
    _ ≤ n.topics.size * (settings.maxTopicFanout - 1) := card_biUnion_spanning_le hcard f n

/-- An edge with a directory at one end hangs one of its ends on the other. -/
theorem parentKey_of_adjacent_directory (hes : ∀ e ∈ es, e.Rooted) (hsep : Separate es) {a b : String}
    (ha : (replay settings es).kind? a = some .directory ∨ (replay settings es).kind? a = some .file)
    (hb : (replay settings es).kind? b = some .directory) (h : (replay settings es).adjacent a b) :
    b = parentKey a ∨ (a = parentKey b ∧ (replay settings es).kind? a = some .directory) := by
  have hsorted := sorted_replay settings hes hsep
  cases origin_replay hes (hsorted.isPath hes ha) (hsorted.isPath hes (.inl hb)) h with
  | below hparent _ => exact .inl hparent
  | above hparent hdirectory => exact .inr ⟨hparent, (hsorted.directory_iff a).2 hdirectory⟩
  | topic t _ htb =>
    have hfile := kind?_of_carrier settings hes hsep htb
    rw [hb] at hfile
    contradiction

/-- A file has no directory neighbor but the one above it. -/
theorem length_neighborsOf_directory_le (hes : ∀ e ∈ es, e.Rooted) (hsep : Separate es) {f : String}
    (hf : (replay settings es).kind? f = some .file) :
    ((replay settings es).neighborsOf f .directory).length ≤ 1 := by
  have hsubset : (replay settings es).neighborsOf f .directory ⊆ [parentKey f] := by
    intro d hd
    obtain ⟨hadjacent, hkind⟩ := mem_neighborsOf.1 hd
    rcases parentKey_of_adjacent_directory hes hsep (.inr hf) hkind hadjacent with hparent | ⟨-, hdirectory⟩
    · exact List.mem_singleton.2 hparent
    · rw [hf] at hdirectory
      contradiction
  exact (List.subperm_of_subset (nodup_neighborsOf _ _ _) hsubset).length_le

/-! ### Counting edges -/

private theorem mem_hangingEdges_of_directory (hes : ∀ e ∈ es, e.Rooted) (hsep : Separate es) {a b : String}
    (ha : (replay settings es).kind? a = some .directory ∨ (replay settings es).kind? a = some .file)
    (hb : (replay settings es).kind? b = some .directory) (h : (replay settings es).adjacent a b) :
    s(a, b) ∈ hangingEdges ((replay settings es).nodesOf .file ++ (replay settings es).nodesOf .directory) := by
  rcases parentKey_of_adjacent_directory hes hsep ha hb h with rfl | ⟨rfl, -⟩
  · exact mem_hangingEdges ha
  · rw [Sym2.eq_swap]
    exact mem_hangingEdges (.inl hb)

/-- An edge among files and directories has a directory at one end or files at both. -/
private theorem mem_of_mem_treeEdges (hes : ∀ e ∈ es, e.Rooted) (hsep : Separate es) {e : Sym2 String}
    (he : e ∈ (replay settings es).treeEdges) :
    e ∈ hangingEdges ((replay settings es).nodesOf .file ++ (replay settings es).nodesOf .directory)
      ++ (replay settings es).fileEdges := by
  obtain ⟨⟨a, b, rfl, hadjacent⟩, hkinds⟩ := he
  have ha := hkinds a (Sym2.mem_mk_left a b)
  have hb := hkinds b (Sym2.mem_mk_right a b)
  rcases hb with hb | hb
  · exact List.mem_append_left _ (mem_hangingEdges_of_directory hes hsep ha hb hadjacent)
  · rcases ha with ha | ha
    · rw [Sym2.eq_swap]
      have hadjacent := (sound_replay settings hes).symmetric a b hadjacent
      exact List.mem_append_left _ (mem_hangingEdges_of_directory hes hsep (.inr hb) ha hadjacent)
    · obtain ⟨n, hn⟩ := exists_mem_nodesOf ha
      refine List.mem_append_right _ (List.mem_flatMap.2 ⟨(a, n), hn, ?_⟩)
      exact List.mem_map.2 ⟨b, mem_neighborsOf.2 ⟨hadjacent, hb⟩, rfl⟩

private theorem length_fileEdges_le (hes : ∀ e ∈ es, e.Rooted) (hsep : Separate es) :
    (replay settings es).fileEdges.length ≤ (((replay settings es).nodesOf .file).map fun p =>
      p.2.topics.size * (settings.maxTopicFanout - 1)).sum := by
  rw [fileEdges, List.length_flatMap]
  refine List.sum_le_sum fun p hp => ?_
  obtain ⟨hn, hkind⟩ := mem_nodesOf.1 hp
  rw [List.length_map]
  exact length_neighborsOf_file_le hes hsep hn hkind

end

/-- A file has at most as many file neighbors as its topics times the fanout less one, and at most one directory
neighbor.  So the edges among files and directories are no more than these and, for each of their nodes, one to
what is above it. -/
theorem linear_replay (settings : GraphSettings) (es : List (MemoryEvent α)) (hes : ∀ e ∈ es, e.Rooted)
    (hsep : Separate es) :
    (∀ f n, (replay settings es).node? f = some n → n.kind = .file →
      ((replay settings es).neighborsOf f .file).length ≤ n.topics.size * (settings.maxTopicFanout - 1) ∧
        ((replay settings es).neighborsOf f .directory).length ≤ 1) ∧
    (replay settings es).treeEdges.encard ≤
      (((replay settings es).nodesOf .file).length + ((replay settings es).nodesOf .directory).length
        + (((replay settings es).nodesOf .file).map fun p =>
            p.2.topics.size * (settings.maxTopicFanout - 1)).sum : ℕ) := by
  constructor
  · intro f n hn hkind
    have hf : (replay settings es).kind? f = some .file := by simp [kind?, hn, hkind]
    exact ⟨length_neighborsOf_file_le hes hsep hn hkind, length_neighborsOf_directory_le hes hsep hf⟩
  · have hsubset : (replay settings es).treeEdges ⊆
        ((hangingEdges ((replay settings es).nodesOf .file ++ (replay settings es).nodesOf .directory)
          ++ (replay settings es).fileEdges).toFinset : Set (Sym2 String)) := by
      intro e he
      rw [List.coe_toFinset]
      exact mem_of_mem_treeEdges hes hsep he
    refine (Set.encard_le_encard hsubset).trans ?_
    rw [Set.encard_coe_eq_coe_finsetCard, Nat.cast_le]
    refine (List.toFinset_card_le _).trans ?_
    rw [List.length_append, hangingEdges, List.length_map, List.length_append]
    exact Nat.add_le_add_left (length_fileEdges_le hes hsep) _

/-- What the bounds are for a file of the run. -/
theorem linear_replay_sampleRun :
    ∃ n, (replay ⟨true, true, 1, 8, 1⟩ sampleRun).node? "/tree/src/parse_tree.rs" = some n ∧
      ((replay ⟨true, true, 1, 8, 1⟩ sampleRun).neighborsOf "/tree/src/parse_tree.rs" .file).length
        ≤ n.topics.size * 7 ∧
      ((replay ⟨true, true, 1, 8, 1⟩ sampleRun).neighborsOf "/tree/src/parse_tree.rs" .directory).length
        ≤ 1 := by
  have hfile : (replay ⟨true, true, 1, 8, 1⟩ sampleRun).kind? "/tree/src/parse_tree.rs" = some .file :=
    kind?_replay_sampleRun _ (by simp)
  obtain ⟨n, hn, hkind⟩ := Option.map_eq_some_iff.1 hfile
  exact ⟨n, hn,
    (linear_replay ⟨true, true, 1, 8, 1⟩ sampleRun rooted_sampleRun separate_sampleRun).1 _ n hn hkind⟩

end MemoryGraph

end EchoEngine
