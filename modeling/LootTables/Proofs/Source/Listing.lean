import LootTables.Proofs.Source.Discovery

/-!
# Trees that list their places alike

In which order a search goes on its way is up to the tree. Two trees that have the same everywhere but at
one place, where neither has a directory, and that list all other places in the same order
(`FileTree.ListsAlike`), lead a search along the same way, but for a look at that place. If nothing comes of
this look, the search ends alike in both, also where it meets a limit (`sources_of_listsAlike`).
-/

namespace LootTables

/-- The visit is no look at a certain place. -/
def Visit.isElsewhere (l k : Location) : Visit → Bool
  | .look names => l ++ names ≠ k
  | _ => true

namespace FileTree

variable {t t' : FileTree} {l k : Location} {room : Nat} {names : List Text}

/-- The trees list all places but one in the same order, and with the same in them. -/
def ListsAlike (t t' : FileTree) (k : Location) : Prop :=
  t'.entries.filter (fun entry => entry.1 ≠ k) = t.entries.filter fun entry => entry.1 ≠ k

/-- What an entry contributes to what lies directly in a directory. -/
def child? (l : Location) (entry : Location × Node) : Option (Text × Node) :=
  match l.isPrefixOf? entry.1 with
  | some [name] => some (name, entry.2)
  | _ => none

theorem child?_eq_some_iff {entry : Location × Node} {child : Text × Node} :
    child? l entry = some child ↔ entry = (l ++ [child.1], child.2) := by
  obtain ⟨place, node⟩ := entry
  obtain ⟨name, node'⟩ := child
  unfold child?
  constructor
  · intro h
    split at h
    · next name' hbegins =>
      cases h
      exact Prod.ext (List.isPrefixOf?_eq_some_iff_append_eq.1 hbegins).symm rfl
    · cases h
  · intro h
    cases h
    have hbegins : l.isPrefixOf? (l ++ [name]) = some [name] :=
      List.isPrefixOf?_eq_some_iff_append_eq.2 rfl
    dsimp only
    rw [hbegins]

theorem children_eq : t.children l = t.entries.filterMap (child? l) := by
  unfold children below
  rw [List.filterMap_filterMap]
  refine List.filterMap_congr fun entry _ => ?_
  unfold child?
  cases l.isPrefixOf? entry.1 with
  | none => rfl
  | some names =>
    match names with
    | [] => rfl
    | [_] => rfl
    | _ :: _ :: _ => rfl

/-- Trees that list their places alike list the same in a directory, but for the one place. -/
theorem ListsAlike.children (h : t.ListsAlike t' k) {p : Text × Node → Bool}
    (hp : ∀ child, p child → t.nodeAt (l ++ [child.1]) = some child.2 → l ++ [child.1] ≠ k)
    (hp' : ∀ child, p child → t'.nodeAt (l ++ [child.1]) = some child.2 → l ++ [child.1] ≠ k) :
    (t'.children l).filter p = (t.children l).filter p := by
  -- The one place contributes nothing that is kept, so it can be left out of both lists.
  have hleave : ∀ {t : FileTree},
      (∀ child, p child → t.nodeAt (l ++ [child.1]) = some child.2 → l ++ [child.1] ≠ k) →
      (t.children l).filter p =
        ((t.entries.filter fun entry => entry.1 ≠ k).filterMap (child? l)).filter p := by
    intro t hp
    rw [children_eq, List.filter_filterMap, List.filter_filterMap, List.filterMap_filter]
    refine List.filterMap_congr fun entry hentry => ?_
    cases hchild : child? l entry with
    | none => simp
    | some child =>
      obtain rfl := child?_eq_some_iff.1 hchild
      have hnode := (mem_entries_iff (by simp)).1 hentry
      by_cases hkept : p child
      · have hne := hp child hkept hnode
        simp [hne]
      · simp [hkept]
  rw [hleave hp, hleave hp', h]

/-- The same directories are opened, and in the same order. -/
theorem ListsAlike.opened (h : t.ListsAlike t' k) (differ : t.DifferAt t' k) :
    t'.opened l room names = t.opened l room names := by
  induction room generalizing names with
  | zero => rfl
  | succ room ih =>
    unfold FileTree.opened
    rw [h.children]
    · exact congrArg _ (List.flatMap_congr fun child _ => ih)
    · intro child hchild hnode heq
      rw [of_decide_eq_true hchild, heq] at hnode
      exact differ.place hnode
    · intro child hchild hnode heq
      rw [of_decide_eq_true hchild, heq] at hnode
      exact differ.place' hnode

/-- The same is visited elsewhere, and in the same order. -/
theorem ListsAlike.visits (h : t.ListsAlike t' k) (differ : t.DifferAt t' k) :
    (t'.visits l room).filter (Visit.isElsewhere l k) = (t.visits l room).filter (Visit.isElsewhere l k) := by
  unfold FileTree.visits
  rw [List.filter_flatMap, List.filter_flatMap, h.opened differ]
  refine List.flatMap_congr fun above _ => ?_
  unfold visitsIn
  rw [List.filter_append, List.filter_append, List.filter_cons_of_pos rfl, List.filter_cons_of_pos rfl,
    List.filter_map, List.filter_map, List.filter_filter, List.filter_filter, h.children]
  · intro child hchild _
    rw [List.append_assoc]
    exact of_decide_eq_true (Bool.and_eq_true_iff.1 hchild).1
  · intro child hchild _
    rw [List.append_assoc]
    exact of_decide_eq_true (Bool.and_eq_true_iff.1 hchild).1

/-! ### A look that nothing comes of -/

/-- Nothing comes of looking at a place: if it has the name of a document, its path is not too long, but it
lies too deep. -/
def IsPassedOver (t : FileTree) (directory : Path) (maxDepth : Json) (l k : Location) : Prop :=
  ∀ names, k = l ++ names → isDocumentName names →
    t.locate (directory.append names) ≠ .error .nameTooLong ∧
    ∃ allowed, depthCheck maxDepth = .ok allowed ∧ ¬allowed names.length

section

variable {directory : Path} {maxDepth : Json} {visit : Visit} (grounded : t.IsGrounded)
  (hnames : t.HasFileNames) (hdirectory : t.find directory = .ok (l, .directory))
  (hvisit : visit ∈ t.visits l room)
include grounded hnames hdirectory hvisit

theorem IsPassedOver.examine (hpassed : t.IsPassedOver directory maxDepth l k)
    (hplace : ¬visit.isElsewhere l k) : t.examine directory maxDepth visit = .ok none := by
  cases visit with
  | list names => exact absurd rfl hplace
  | giveUp => exact absurd rfl hplace
  | look names =>
    obtain ⟨hname, -, hthere⟩ := (look_mem_visits_iff grounded (find_eq_ok_iff.1 hdirectory).2).1 hvisit
    have hk : l ++ names = k := by simpa [Visit.isElsewhere] using hplace
    obtain ⟨hlong, allowed, hdepth, hdeep⟩ := hpassed names hk.symm hname
    rw [examine_look grounded hnames hdirectory hthere, if_neg hlong]
    unfold Visit.file?
    dsimp only
    split
    · unfold chosen
      rw [hdepth]
      exact congrArg Except.ok (if_neg hdeep)
    · rfl

/-- Elsewhere, the same comes of a visit to both trees. -/
theorem DifferAt.examine (differ : t.DifferAt t' k) (grounded' : t'.IsGrounded)
    (hnames' : t'.HasFileNames) (hplace : visit.isElsewhere l k) :
    t'.examine directory maxDepth visit = t.examine directory maxDepth visit := by
  have hdirectory' := differ.keepsDirectories.find_directory hdirectory
  have hlong : ∀ names, t'.locate (directory.append names) = .error .nameTooLong ↔
      t.locate (directory.append names) = .error .nameTooLong := fun names =>
    ⟨differ.symm.keepsDirectories.locate_nameTooLong, differ.keepsDirectories.locate_nameTooLong⟩
  cases visit with
  | giveUp => rfl
  | list names =>
    obtain ⟨-, hnode⟩ := (list_mem_visits_iff grounded (find_eq_ok_iff.1 hdirectory).2).1 hvisit
    rw [examine_list grounded hnames hdirectory hnode, examine_list grounded' hnames' hdirectory'
      (differ.keepsDirectories.directory _ hnode), if_congr (hlong names) rfl rfl]
  | look names =>
    obtain ⟨-, -, hthere⟩ := (look_mem_visits_iff grounded (find_eq_ok_iff.1 hdirectory).2).1 hvisit
    have hnode := differ.node (l ++ names) (of_decide_eq_true hplace)
    have hfile : (Visit.look names).file? t' l = (Visit.look names).file? t l := by
      unfold Visit.file?
      dsimp only
      rw [hnode]
    rw [examine_look grounded hnames hdirectory hthere, examine_look grounded' hnames' hdirectory'
      (hnode ▸ hthere), hfile, if_congr (hlong names) rfl rfl]

end

end FileTree

end LootTables
