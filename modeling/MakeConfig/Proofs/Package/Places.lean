import MakeConfig.Package.Build
import MakeConfig.Proofs.FileSystem.Ways
import MakeConfig.Proofs.Path.Route
import MakeConfig.Proofs.Tree.Order
import MakeConfig.Proofs.Tree.Valued

/-! # Where ledgers are

A schema that was read is a file, so its path in normal form is a name in a directory. The ledgers of a
tree are those in the directories of its schemas, and different directories have different ones.
-/

namespace MakeConfig

namespace Path

theorem any_same_iff {kept : List Path} {p : Path} (hp : p.IsNormal)
    (hkept : ∀ q ∈ kept, q.IsNormal) : kept.any p.same = true ↔ p ∈ kept := by
  rw [List.any_eq_true]
  constructor
  · rintro ⟨q, hq, hsame⟩
    rwa [hp.eq_of_same (hkept q hq) hsame]
  · exact fun hmem => ⟨p, hmem, beq_self_eq_true _⟩

theorem foldl_keep {paths kept : List Path} (hpaths : ∀ p ∈ paths, p.IsNormal)
    (hkept : ∀ q ∈ kept, q.IsNormal) (hnodup : kept.Nodup) :
    (paths.foldl (fun kept p => if kept.any p.same then kept else p :: kept) kept).Nodup ∧
    ∀ p, p ∈ paths.foldl (fun kept p => if kept.any p.same then kept else p :: kept) kept ↔
      p ∈ kept ∨ p ∈ paths := by
  induction paths generalizing kept with
  | nil => exact ⟨hnodup, fun p => by simp⟩
  | cons first paths ih =>
    have hfirst := hpaths first List.mem_cons_self
    have hany := any_same_iff hfirst hkept
    have hrest : ∀ p ∈ paths, p.IsNormal := fun p hp => hpaths p (List.mem_cons_of_mem _ hp)
    rw [List.foldl_cons]
    by_cases hmem : first ∈ kept
    · rw [if_pos (hany.mpr hmem)]
      obtain ⟨hn, hall⟩ := ih hrest hkept hnodup
      refine ⟨hn, fun p => (hall p).trans ?_⟩
      rw [List.mem_cons]
      exact ⟨Or.imp_right .inr, fun h => h.elim .inl fun h => h.elim (fun he => .inl (he ▸ hmem)) .inr⟩
    · rw [if_neg (mt hany.mp hmem)]
      obtain ⟨hn, hall⟩ := ih hrest (by simpa using ⟨hfirst, hkept⟩)
        (List.nodup_cons.mpr ⟨hmem, hnodup⟩)
      refine ⟨hn, fun p => (hall p).trans ?_⟩
      rw [List.mem_cons, List.mem_cons, or_assoc, or_left_comm]

end Path

theorem Binding.isNormal_pathWith (b : Binding) (value? : String → Option String) :
    (b.pathWith value?).IsNormal := Path.isNormal_normal _

namespace Tree

variable {t : Tree}

def SchemaDirectory (t : Tree) (directory : Path) : Prop :=
  ∃ id node parsed, t.node? id = some node ∧ node.parsed? = some parsed ∧
    parsed.file.parent? = some directory

namespace Reachable

variable (h : t.Reachable)

include h

theorem mem_walkedNodes_iff {node : Node} :
    node ∈ t.walkedNodes ↔ ∃ id parsed, t.node? id = some node ∧ node.parsed? = some parsed := by
  unfold walkedNodes
  rw [List.mem_filterMap]
  constructor
  · rintro ⟨id, hw, hn⟩
    obtain ⟨parsed, hp⟩ := Option.isSome_iff_exists.mp ((h.owned.mem_walk_iff h.rising).mp hw)
    obtain ⟨node', hn', hp⟩ := Option.bind_eq_some_iff.mp hp
    obtain rfl := Option.some.inj (hn.symm.trans hn')
    exact ⟨id, parsed, hn, hp⟩
  · rintro ⟨id, parsed, hn, hp⟩
    refine ⟨id, (h.owned.mem_walk_iff h.rising).mpr ?_, hn⟩
    rw [readAt?, hn, Option.bind_some, hp]
    rfl

theorem exists_directory {id : NodeId} {node : Node} {parsed : Parsed}
    (hn : t.node? id = some node) (hp : node.parsed? = some parsed) :
    ∃ r : Route, r.Sound ∧ parsed.file.parent? = some r.directory := by
  obtain ⟨files, path, hfile, hthere⟩ := h.found hn hp
  have hnormal : path.path.IsNormal := path.isNormal_pathWith _
  obtain ⟨r, n, hr, hname, hchild⟩ :=
    hnormal.exists_child (FileSystem.namesDirectory_of_isFile hthere)
  exact ⟨r, hr, by rw [hfile, hchild, Route.parent?_child hr hname]⟩

theorem route_of_schemaDirectory {directory : Path} (hd : t.SchemaDirectory directory) :
    ∃ r : Route, r.Sound ∧ directory = r.directory := by
  obtain ⟨id, node, parsed, hn, hp, hparent⟩ := hd
  obtain ⟨r, hr, hdirectory⟩ := h.exists_directory hn hp
  exact ⟨r, hr, Option.some.inj (hparent.symm.trans hdirectory)⟩

theorem eq_of_joinText_eq {name : String} (hname : Path.IsName name) {d d' : Path}
    (hd : t.SchemaDirectory d) (hd' : t.SchemaDirectory d') (he : d.joinText name = d'.joinText name) :
    d = d' := by
  obtain ⟨r, hr, rfl⟩ := h.route_of_schemaDirectory hd
  obtain ⟨r', hr', rfl⟩ := h.route_of_schemaDirectory hd'
  rw [Route.joinText_directory hr hname, Route.joinText_directory hr' hname] at he
  rw [Route.child_injective (Route.toPath_injective (hr.child hname) (hr'.child hname) he)]

theorem schemaDirectory_of_mem_repoSites {site : RepoSite} (hs : site ∈ t.repoSites) :
    t.SchemaDirectory site.base := by
  obtain ⟨node, hnode, hs⟩ := List.mem_flatMap.mp hs
  obtain ⟨i, -, hs⟩ := List.mem_filterMap.mp hs
  obtain ⟨repo, -, rfl⟩ := Option.map_eq_some_iff.mp hs
  obtain ⟨id, parsed, hn, hp⟩ := h.mem_walkedNodes_iff.mp hnode
  obtain ⟨r, -, hdirectory⟩ := h.exists_directory hn hp
  refine ⟨id, node, parsed, hn, hp, ?_⟩
  simp only [Node.baseDirectory?, Node.file?, hp, Option.map_some, Option.bind_some, hdirectory,
    Option.getD_some]

/-- The ledgers of a tree are those in the directories of its schemas, each once. -/
theorem ledgerPaths_listed {name : String} (hname : Path.IsName name) :
    (Package.ledgerPaths name t).Nodup ∧ ∀ p, p ∈ Package.ledgerPaths name t ↔
      ∃ directory, t.SchemaDirectory directory ∧ directory.joinText name = p := by
  have hmem : ∀ p, p ∈ (t.walkedNodes.filterMap Node.baseDirectory?).map (·.joinText name) ↔
      ∃ directory, t.SchemaDirectory directory ∧ directory.joinText name = p := by
    intro p
    simp only [List.mem_map, List.mem_filterMap, h.mem_walkedNodes_iff]
    constructor
    · rintro ⟨directory, ⟨node, ⟨id, parsed, hn, hp⟩, hd⟩, rfl⟩
      rw [Node.baseDirectory?, Node.file?, hp] at hd
      exact ⟨directory, ⟨id, node, parsed, hn, hp, hd⟩, rfl⟩
    · rintro ⟨directory, ⟨id, node, parsed, hn, hp, hd⟩, rfl⟩
      refine ⟨directory, ⟨node, ⟨id, parsed, hn, hp⟩, ?_⟩, rfl⟩
      rw [Node.baseDirectory?, Node.file?, hp]
      exact hd
  have hnormal : ∀ p ∈ (t.walkedNodes.filterMap Node.baseDirectory?).map (·.joinText name),
      p.IsNormal := by
    intro p hp
    obtain ⟨directory, hd, rfl⟩ := (hmem p).mp hp
    obtain ⟨r, hr, rfl⟩ := h.route_of_schemaDirectory hd
    rw [Route.joinText_directory hr hname]
    exact Path.isNormal_toPath (hr.child hname)
  obtain ⟨hnodup, hall⟩ := @Path.foldl_keep _ [] hnormal (by rintro q ⟨⟩) List.nodup_nil
  refine ⟨List.nodup_reverse.mpr hnodup, fun p => ?_⟩
  rw [Package.ledgerPaths, List.mem_reverse, hall, hmem]
  simp

end Reachable

end Tree

end MakeConfig
