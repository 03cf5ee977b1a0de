import EchoEngine.Proofs.Memory.Parents
import EchoEngine.Proofs.Memory.Refold
import Mathlib.Combinatorics.SimpleGraph.Connectivity.Connected

/-!
# Lineages

The lineage of a path below a root is the key of the path, the keys of its proper prefixes, the longest one
first, and the root.  If ancestry is linked, what a fold leaves behind of a file is its lineage: every key of
it is a node and joined to the next one.  Nothing that happens later takes any of that away, so every file
that has ever been folded lies on a path to its root, and two files under one root are connected
(`lineage_replay`).
-/

namespace EchoEngine

variable {α : Type}

namespace FoldPlan

/-- The keys from a file up to its root. -/
def lineage (root path : String) : List String :=
  (Text.splitBy (· == '/') path).inits.tail.reverse.map (fun pieces => keyBelow root ("/".intercalate pieces))
    ++ [root]

example : lineage "/tree" "src/memory/graph.rs"
    = ["/tree/src/memory/graph.rs", "/tree/src/memory", "/tree/src", "/tree"] := by decide

/-- The prefixes of a path are what the rests of the way to it lead to. -/
theorem lineage_eq_map_tails (root path : String) :
    lineage root path = (fileWay path).tails.map (directoryKey root) := by
  have hinits : ∀ l : List String, l.inits = [] :: l.inits.tail := by
    intro l
    cases l <;> simp
  rw [fileWay, List.tails_reverse, List.map_reverse, List.map_map,
    hinits (Text.splitBy (· == '/') path), List.map_cons, List.reverse_cons, lineage, List.map_reverse]
  congr 2
  apply List.map_congr_left
  intro pieces hpieces
  have hne : pieces ≠ [] := by
    rintro rfl
    cases hsplit : Text.splitBy (· == '/') path with
    | nil => simp [hsplit] at hpieces
    | cons piece rest => simp [hsplit] at hpieces
  rw [Function.comp_apply, directoryKey_of_ne_nil root (by simpa using hne), List.reverse_reverse]

/-- What holds between the key of every rest of a way and the next one holds along the way. -/
theorem isChain_map_tails {R : String → String → Prop} {root : String} {way : List String}
    (h : ∀ piece above, piece :: above <:+ way →
      R (directoryKey root (piece :: above)) (directoryKey root above)) :
    (way.tails.map (directoryKey root)).IsChain R := by
  induction way with
  | nil => simp
  | cons piece above ih =>
    have hrest := ih fun p ps hp => h p ps (hp.trans (List.suffix_cons _ _))
    have hfirst := h piece above (List.suffix_refl _)
    cases above with
    | nil => simpa using hfirst
    | cons q above => exact List.isChain_cons_cons.2 ⟨hfirst, hrest⟩

/-- A path without empty pieces has a lineage without repetitions. -/
theorem nodup_lineage (root : String) {path : String} (hpath : "" ∉ Text.splitBy (· == '/') path) :
    (lineage root path).Nodup := by
  have hlengths : (lineage root path).IsChain fun a b => b.length < a.length := by
    rw [lineage_eq_map_tails]
    refine isChain_map_tails fun piece above hway => length_directoryKey_lt root ?_ above
    exact ne_empty_of_suffix hway fun hempty => hpath (List.mem_reverse.1 hempty)
  have htrans : ∀ a b c : String, b.length < a.length → c.length < b.length → c.length < a.length := by
    intro a b c hab hbc
    omega
  have : IsTrans String fun a b => b.length < a.length := ⟨htrans⟩
  refine (List.isChain_iff_pairwise.1 hlengths).imp ?_
  rintro a b hlt rfl
  exact absurd hlt (lt_irrefl _)

end FoldPlan

namespace MemoryGraph

open FoldPlan

/-- The keys of a graph with its edges, as a simple graph. -/
def simple (g : MemoryGraph α) : SimpleGraph String :=
  .fromRel fun a b => g.adjacent a b

theorem simple_adj {g : MemoryGraph α} (h : g.Undirected) {a b : String} :
    g.simple.Adj a b ↔ g.adjacent a b := by
  rw [simple, SimpleGraph.fromRel_adj]
  constructor
  · rintro ⟨-, hab | hba⟩
    · exact hab
    · exact h.symmetric b a hba
  · intro hab
    refine ⟨?_, .inl hab⟩
    rintro rfl
    exact h.irreflexive a hab

/-! ### What is remembered of a file -/

section

variable {g : MemoryGraph α} {root : String} {files : List (SalientFile α)} {f : SalientFile α}

/-- What a way leads to is the file itself, or a directory above it. -/
private theorem suffix_fileWay_iff (path : String) (way : List String) :
    way <:+ fileWay path ↔ way = fileWay path ∨ way <:+ directoryPieces path := by
  obtain ⟨name, hway⟩ := fileWay_eq_cons path
  rw [hway, List.suffix_cons_iff]

theorem Remembers.contains_way (h : g.Remembers (.ofFiles root files)) (hf : f ∈ files) {way : List String}
    (hway : way <:+ fileWay f.path) : g.contains (directoryKey root way) := by
  rcases (suffix_fileWay_iff f.path way).1 hway with rfl | hdirectory
  · obtain ⟨n, hn, -⟩ := (h.file _ (List.mem_map_of_mem hf)).node
    rw [directoryKey_fileWay]
    exact contains_iff.2 ⟨n, hn⟩
  · have hmem : directoryKey root way ∈ (ofFiles root files).directories :=
      directoryKey_mem_directories hf hdirectory
    obtain ⟨parent, hparent⟩ :=
      Option.isSome_iff_exists.1 (Std.ExtTreeMap.mem_iff_isSome_getElem?.1 hmem)
    exact (h.directory _ parent hparent).contains

/-- Every key on the way to a file is linked to the one above it. -/
theorem Remembers.linked_way (h : g.Remembers (.ofFiles root files)) (hf : f ∈ files) {piece : String}
    {above : List String} (hway : piece :: above <:+ fileWay f.path) :
    g.Linked (directoryKey root (piece :: above)) (directoryKey root above) := by
  rcases (suffix_fileWay_iff f.path _).1 hway with hfile | hdirectory
  · have hlinked := (h.file _ (List.mem_map_of_mem hf)).linked
    simp only [plannedFile] at hlinked
    have habove : above = directoryPieces f.path := by
      rw [← tail_fileWay, ← hfile]
      rfl
    rwa [hfile, habove, directoryKey_fileWay]
  · by_cases hroot : directoryKey root (piece :: above) = root
    · -- the piece is empty and the root a slash, so that nothing is to be linked
      obtain rfl := eq_nil_of_directoryKey_eq_root hroot
      exact fun _ => .inl hroot
    · exact (h.directory _ _ ((getElem?_directories (List.ne_nil_of_mem hf) _ _).2
        (.inr ⟨hroot, piece, above, ⟨f, hf, hdirectory⟩, rfl, rfl⟩))).linked _ rfl

/-- What lies on the way to a file is connected to its root. -/
theorem Remembers.reachable_root (h : g.Remembers (.ofFiles root files)) (hg : g.Undirected)
    (hancestry : g.settings.ancestryEdges) (hf : f ∈ files) {way : List String}
    (hway : way <:+ fileWay f.path) : g.simple.Reachable (directoryKey root way) root := by
  induction way with
  | nil => exact .refl _
  | cons piece above ih =>
    have habove := ih ((List.suffix_cons _ _).trans hway)
    rcases h.linked_way hf hway hancestry with heq | hadjacent
    · rwa [heq]
    · exact (((simple_adj hg).2 hadjacent).reachable).trans habove

theorem Remembers.isChain_lineage (h : g.Remembers (.ofFiles root files)) (hg : g.Undirected)
    (hancestry : g.settings.ancestryEdges) (hf : f ∈ files)
    (hpath : "" ∉ Text.splitBy (· == '/') f.path) : (lineage root f.path).IsChain g.simple.Adj := by
  rw [lineage_eq_map_tails]
  refine isChain_map_tails fun piece above hway => ?_
  rw [simple_adj hg]
  refine (h.linked_way hf hway hancestry).resolve_left fun heq => ?_
  have hpiece := ne_empty_of_suffix hway fun hempty => hpath (List.mem_reverse.1 hempty)
  have hlt := length_directoryKey_lt root hpiece above
  rw [heq] at hlt
  exact lt_irrefl _ hlt

end

/-! ### Runs -/

theorem head_lineage (root path : String) : (lineage root path).head? = some (keyBelow root path) := by
  obtain ⟨name, hway⟩ := fileWay_eq_cons path
  rw [lineage_eq_map_tails, ← directoryKey_fileWay, hway]
  simp

theorem length_lineage (root path : String) :
    (lineage root path).length = path.toList.count '/' + 2 := by
  rw [lineage_eq_map_tails, List.length_map, List.length_tails, fileWay, List.length_reverse,
    Text.length_splitBy]

variable [Scalar α]

/-- A file that has been folded under a root lies on a path to it that leads through the directories above the
file, all of them nodes, with one edge more than there are slashes in the path of the file.  Hence it is
connected to every other file that has been folded under the same root. -/
theorem lineage_replay (settings : GraphSettings) (hancestry : settings.ancestryEdges)
    (es : List (MemoryEvent α)) (hes : ∀ e ∈ es, e.Rooted) (s : Snapshot α) (hs : .fold s ∈ es)
    (f : SalientFile α) (hf : f ∈ s.salient) (hpath : "" ∉ Text.splitBy (· == '/') f.path) :
    (∃ p : (replay settings es).simple.Walk (keyBelow (rootKey s.root) f.path) (rootKey s.root),
      p.IsPath ∧ p.length = f.path.toList.count '/' + 1 ∧ p.support = lineage (rootKey s.root) f.path ∧
        ∀ key ∈ p.support, (replay settings es).contains key) ∧
    ∀ s' f', .fold s' ∈ es → rootKey s'.root = rootKey s.root → f' ∈ s'.salient →
      (replay settings es).simple.Reachable (keyBelow (rootKey s.root) f.path)
        (keyBelow (rootKey s.root) f'.path) := by
  have hundirected := (sound_replay settings hes).toUndirected
  have hlinks : (replay settings es).settings.ancestryEdges := by
    rwa [settings_replay settings hes]
  have hremembers := remembers_replay settings hes hs
  have hchain := hremembers.isChain_lineage hundirected hlinks hf hpath
  have hhead := head_lineage (rootKey s.root) f.path
  have hne : lineage (rootKey s.root) f.path ≠ [] := by simp [lineage]
  refine ⟨⟨(SimpleGraph.Walk.ofSupport _ hne hchain).copy ?_ ?_, ?_, ?_, ?_, ?_⟩, ?_⟩
  · rw [List.head?_eq_some_head hne] at hhead
    exact Option.some.inj hhead
  · simp [lineage]
  · rw [SimpleGraph.Walk.isPath_copy, SimpleGraph.Walk.isPath_def, SimpleGraph.Walk.support_ofSupport]
    exact nodup_lineage _ hpath
  · rw [SimpleGraph.Walk.length_copy, SimpleGraph.Walk.length_ofSupport, length_lineage]
    rfl
  · rw [SimpleGraph.Walk.support_copy, SimpleGraph.Walk.support_ofSupport]
  · intro key hkey
    rw [SimpleGraph.Walk.support_copy, SimpleGraph.Walk.support_ofSupport, lineage_eq_map_tails] at hkey
    obtain ⟨way, hway, rfl⟩ := List.mem_map.1 hkey
    exact hremembers.contains_way hf ((List.mem_tails _ _).1 hway)
  · intro s' f' hs' hroot hf'
    have hremembers' := remembers_replay settings hes hs'
    have hup := hremembers.reachable_root hundirected hlinks hf (List.suffix_refl _)
    have hup' := hremembers'.reachable_root hundirected hlinks hf' (List.suffix_refl _)
    rw [directoryKey_fileWay] at hup hup'
    rw [hroot] at hup'
    exact hup.trans hup'.symm

/-- The files of two trees that have been folded before and between two memories. -/
theorem lineage_replay_sampleRun :
    (∃ p : (replay ⟨true, true, 1, 8, 1⟩ sampleRun).simple.Walk "/tree/src/parse_tree.rs" "/tree",
      p.IsPath ∧ p.support = ["/tree/src/parse_tree.rs", "/tree/src", "/tree"]) ∧
    (replay ⟨true, true, 1, 8, 1⟩ sampleRun).simple.Reachable "/tree/src/parse_tree.rs"
      "/tree/src/print_tree.rs" := by
  obtain ⟨⟨p, hp, -, hsupport, -⟩, hconnected⟩ :=
    lineage_replay ⟨true, true, 1, 8, 1⟩ rfl sampleRun rooted_sampleRun
      (sampleTree [("src/parse_tree.rs", 0.5)]) (by simp [sampleRun])
      ⟨"src/parse_tree.rs", 0.5, 0.5, 0.5, 1⟩ (by simp [sampleTree]) (by decide)
  refine ⟨⟨p, hp, hsupport.trans (by decide)⟩, ?_⟩
  exact hconnected (sampleTree [("src/print_tree.rs", 0.25)]) ⟨"src/print_tree.rs", 0.25, 0.5, 0.5, 1⟩
    (by simp [sampleRun]) rfl (by simp [sampleTree])

end MemoryGraph

end EchoEngine
