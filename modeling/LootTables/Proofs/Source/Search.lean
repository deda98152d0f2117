import LootTables.Proofs.Files.Directories
import LootTables.Proofs.Files.Temporary
import LootTables.Proofs.Source.Documents

/-!
# What a search meets

A search opens the directories below its start, each of them once (`nodup_opened`), and looks at
whatever has the name of a document in them. In a tree in which everything lies in a directory these are
all places below the start, as far as there is room (`mem_visits_iff`).

So a visit fails for one of three reasons only: a directory, or something with the name of a document,
has too long a path, or a directory lies too deep (`FileTree.MeetsLimit`). Whether there is such a place
does not depend on the order of the visits, but which of them ends the search does.
-/

namespace LootTables

/-- The names of the file that a visit looks at, if it looks at one. -/
def Visit.file? (t : FileTree) (l : Location) : Visit → Option (List Text)
  | .look names =>
    match t.nodeAt (l ++ names) with
    | some (.file _) => some names
    | _ => none
  | _ => none

/-- What becomes of a file that is looked at, if it is one: it is a source unless it lies too deep. -/
def chosen (maxDepth : Json) : Option (List Text) → Except Failure (Option (List Text))
  | none => .ok none
  | some names => (depthCheck maxDepth).map fun allowed => if allowed names.length then some names else none

namespace FileTree

variable {t t' : FileTree} {l : Location} {room : Nat} {names : List Text} {directory : Path}
  {maxDepth : Json}

/-! ### The way of a search -/

theorem mem_children_iff {name : Text} {node : Node} :
    (name, node) ∈ t.children l ↔ t.nodeAt (l ++ [name]) = some node := by
  unfold children
  rw [List.mem_filterMap]
  constructor
  · rintro ⟨⟨place, node'⟩, hmem, h⟩
    split at h
    · next hfound =>
      cases hfound
      cases h
      exact (mem_below_iff.1 hmem).2
    · cases h
  · intro h
    exact ⟨([name], node), mem_below_iff.2 ⟨List.cons_ne_nil _ _, h⟩, rfl⟩

theorem pairwise_children : (t.children l).Pairwise fun a b => a.1 ≠ b.1 := by
  refine pairwise_below.filterMap _ fun a b hab child hchild child' hchild' hsame => hab ?_
  split at hchild
  · split at hchild'
    · cases hchild
      cases hchild'
      exact congrArg (fun name => [name]) hsame
    · cases hchild'
  · cases hchild

theorem prefix_of_mem_opened {place : List Text} (h : place ∈ t.opened l room names) :
    names <+: place := by
  induction room generalizing names with
  | zero =>
    obtain rfl := List.mem_singleton.1 h
    exact List.prefix_rfl
  | succ room ih =>
    rcases List.mem_cons.1 h with rfl | h
    · exact List.prefix_rfl
    · obtain ⟨⟨name, node⟩, -, h⟩ := List.mem_flatMap.1 h
      exact (List.prefix_append names [name]).trans (ih h)

/-- No directory is opened twice. -/
theorem nodup_opened : (t.opened l room names).Nodup := by
  induction room generalizing names with
  | zero => exact List.nodup_singleton names
  | succ room ih =>
    refine List.nodup_cons.2 ⟨fun h => ?_, List.nodup_flatMap.2 ⟨fun child _ => ih, ?_⟩⟩
    · obtain ⟨⟨name, node⟩, -, h⟩ := List.mem_flatMap.1 h
      have hlength := (prefix_of_mem_opened h).length_le
      rw [List.length_append, List.length_singleton] at hlength
      omega
    · refine (pairwise_children.filter _).imp ?_
      rintro ⟨name, node⟩ ⟨name', node'⟩ hne place h h'
      have hboth := List.prefix_or_prefix_of_prefix (prefix_of_mem_opened h) (prefix_of_mem_opened h')
      have hnames : names ++ [name] = names ++ [name'] := by
        rcases hboth with hboth | hboth
        · exact hboth.eq_of_length (by simp)
        · exact (hboth.eq_of_length (by simp)).symm
      exact hne (List.singleton_inj.1 (List.append_cancel_left hnames))

/-- The directories below a directory are opened, down to as many as there is room for. -/
theorem mem_opened_iff (grounded : t.IsGrounded) (hplace : t.nodeAt (l ++ names) = some .directory)
    {place : List Text} : place ∈ t.opened l room names ↔ ∃ more, place = names ++ more ∧
      more.length ≤ room ∧ t.nodeAt (l ++ place) = some .directory := by
  induction room generalizing names with
  | zero =>
    constructor
    · intro h
      obtain rfl := List.mem_singleton.1 h
      exact ⟨[], (List.append_nil _).symm, Nat.le_refl 0, hplace⟩
    · rintro ⟨more, rfl, hlength, -⟩
      obtain rfl := List.length_eq_zero_iff.1 (Nat.le_zero.1 hlength)
      exact List.mem_singleton.2 (List.append_nil names)
  | succ room ih =>
    constructor
    · intro h
      rcases List.mem_cons.1 h with rfl | h
      · exact ⟨[], (List.append_nil _).symm, Nat.zero_le _, hplace⟩
      · obtain ⟨⟨name, node⟩, hchild, h⟩ := List.mem_flatMap.1 h
        obtain ⟨hchild, hnode⟩ := List.mem_filter.1 hchild
        obtain rfl := of_decide_eq_true hnode
        have hnext := mem_children_iff.1 hchild
        rw [List.append_assoc] at hnext
        obtain ⟨more, rfl, hlength, hthere⟩ := (ih hnext).1 h
        exact ⟨name :: more, List.append_assoc _ _ _, Nat.succ_le_succ hlength, hthere⟩
    · rintro ⟨more, rfl, hlength, hthere⟩
      cases more with
      | nil => simp [opened]
      | cons name more =>
        have hbelow : t.nodeAt ((l ++ (names ++ [name])) ++ more) = some .directory := by simpa using hthere
        have hnext := grounded.directory_of_append hbelow
        refine List.mem_cons_of_mem _ (List.mem_flatMap.2 ⟨(name, .directory), ?_, ?_⟩)
        · refine List.mem_filter.2 ⟨mem_children_iff.2 ?_, rfl⟩
          rwa [List.append_assoc]
        · exact (ih hnext).2 ⟨more, by simp, Nat.le_of_succ_le_succ hlength, hthere⟩

theorem isDocumentName_concat {name : Text} : isDocumentName (names ++ [name]) = isDocumentName [name] := by
  unfold isDocumentName
  rw [List.getLast?_concat, List.getLast?_singleton]

/-- What is visited in one directory. -/
theorem mem_visitsIn_iff {visit : Visit} : visit ∈ t.visitsIn l room names ↔ visit = .list names ∨
    (∃ name, isDocumentName (names ++ [name]) ∧ t.nodeAt (l ++ (names ++ [name])) ≠ none ∧
      visit = .look (names ++ [name])) ∨ room ≤ names.length ∧ visit = .giveUp := by
  unfold visitsIn
  rw [List.mem_append, List.mem_cons, or_assoc]
  refine or_congr_right (or_congr ?_ ?_)
  · rw [List.mem_map]
    constructor
    · rintro ⟨⟨name, node⟩, hchild, rfl⟩
      obtain ⟨hchild, hname⟩ := List.mem_filter.1 hchild
      refine ⟨name, isDocumentName_concat.trans hname, ?_, rfl⟩
      rw [← List.append_assoc, mem_children_iff.1 hchild]
      exact Option.some_ne_none node
    · rintro ⟨name, hname, hthere, rfl⟩
      obtain ⟨node, hnode⟩ := Option.ne_none_iff_exists'.1 hthere
      rw [← List.append_assoc] at hnode
      exact ⟨(name, node), List.mem_filter.2 ⟨mem_children_iff.2 hnode,
        isDocumentName_concat.symm.trans hname⟩, rfl⟩
  · split
    · next hroom => simp [Nat.not_le.2 hroom]
    · next hroom => simp [Nat.not_lt.1 hroom]

section

variable (grounded : t.IsGrounded) (hplace : t.nodeAt l = some .directory)
include grounded hplace

theorem mem_visits_iff {visit : Visit} : visit ∈ t.visits l room ↔
    ∃ names, names.length ≤ room ∧ t.nodeAt (l ++ names) = some .directory ∧
      visit ∈ t.visitsIn l room names := by
  have hstart : t.nodeAt (l ++ []) = some .directory := by rwa [List.append_nil]
  unfold visits
  simp only [List.mem_flatMap, mem_opened_iff grounded hstart, List.nil_append, exists_eq_left',
    and_assoc]

theorem list_mem_visits_iff :
    .list names ∈ t.visits l room ↔ names.length ≤ room ∧ t.nodeAt (l ++ names) = some .directory := by
  rw [mem_visits_iff grounded hplace]
  simp [mem_visitsIn_iff]

theorem look_mem_visits_iff : .look names ∈ t.visits l room ↔
    isDocumentName names ∧ names.length ≤ room + 1 ∧ t.nodeAt (l ++ names) ≠ none := by
  rw [mem_visits_iff grounded hplace]
  constructor
  · rintro ⟨above, hlength, -, hvisit⟩
    rcases mem_visitsIn_iff.1 hvisit with h | ⟨name, hname, hthere, h⟩ | ⟨-, h⟩ <;> cases h
    exact ⟨hname, by simpa using hlength, hthere⟩
  · rintro ⟨hname, hlength, hthere⟩
    rcases List.eq_nil_or_concat names with rfl | ⟨above, name, rfl⟩
    · exact absurd hname (by decide)
    · rw [List.concat_eq_append] at *
      refine ⟨above, by simpa using hlength, grounded (l ++ above) name ?_, ?_⟩
      · rwa [List.append_assoc]
      · exact mem_visitsIn_iff.2 (.inr (.inl ⟨name, hname, hthere, rfl⟩))

theorem giveUp_mem_visits_iff : .giveUp ∈ t.visits l room ↔
    ∃ names, names.length = room ∧ t.nodeAt (l ++ names) = some .directory := by
  rw [mem_visits_iff grounded hplace]
  refine exists_congr fun names => ?_
  simp only [mem_visitsIn_iff, reduceCtorEq, false_or, and_false, exists_const, and_true, le_antisymm_iff]
  tauto

end

/-- Nothing is looked at twice. -/
theorem pairwise_visits :
    (t.visits l room).Pairwise fun a b => ∀ names, a = .look names → b ≠ .look names := by
  refine List.pairwise_flatMap.2 ⟨fun above _ => ?_, nodup_opened.imp ?_⟩
  · refine List.pairwise_append.2 ⟨List.pairwise_cons.2 ⟨fun _ _ => nofun, ?_⟩, ?_, ?_⟩
    · refine List.pairwise_map.2 ((pairwise_children.filter _).imp ?_)
      rintro ⟨name, node⟩ ⟨name', node'⟩ hne names h h'
      cases h
      simp only [Visit.look.injEq, List.append_cancel_left_eq, List.singleton_inj] at h'
      exact hne h'.symm
    · split
      · exact .nil
      · exact List.pairwise_singleton _ _
    · intro a _ b hb names _ hlook
      split at hb <;> simp [hlook] at hb
  · -- What is looked at shows in which directory it lies.
    have habove : ∀ {names above}, .look names ∈ t.visitsIn l room above → ∃ name, names = above ++ [name] := by
      intro names above h
      rcases mem_visitsIn_iff.1 h with h | ⟨name, -, -, h⟩ | ⟨-, h⟩ <;> cases h
      exact ⟨name, rfl⟩
    rintro above above' hne a ha b hb names rfl rfl
    obtain ⟨name, hname⟩ := habove ha
    obtain ⟨name', hname'⟩ := habove hb
    exact hne (List.append_inj_left' (hname.symm.trans hname') rfl)

/-! ### Limits -/

/-- A limit that a search below a directory meets, as the failure that it is. The directory is at `l`,
and the names lead on from there. -/
inductive MeetsLimit (t : FileTree) (directory : Path) (l : Location) (room : Nat) : Failure → Prop
  /-- The path of a directory is too long for it to be listed. -/
  | list {names : List Text} (place : t.nodeAt (l ++ names) = some .directory)
      (long : t.locate (directory.append names) = .error .nameTooLong) :
      MeetsLimit t directory l room (.file ⟨.nameTooLong, directory.append names, none⟩)
  /-- The path of something with the name of a document is too long for it to be looked at. -/
  | look {names : List Text} (name : isDocumentName names) (place : t.nodeAt (l ++ names) ≠ none)
      (long : t.locate (directory.append names) = .error .nameTooLong) :
      MeetsLimit t directory l room (.file ⟨.nameTooLong, directory.append names, none⟩)
  /-- A directory lies too deep. -/
  | nest {names : List Text} (place : t.nodeAt (l ++ names) = some .directory)
      (deep : room ≤ names.length) : MeetsLimit t directory l room (.depth .tooDeep)

/-- A search below the directory meets no limit. -/
def WithinLimits (t : FileTree) (directory : Path) (l : Location) (room : Nat) : Prop :=
  ∀ e, ¬t.MeetsLimit directory l room e

theorem withinLimits_iff : t.WithinLimits directory l room ↔ ∀ names node,
    t.nodeAt (l ++ names) = some node →
      (node = .directory ∨ isDocumentName names → t.locate (directory.append names) ≠ .error .nameTooLong) ∧
      (node = .directory → names.length < room) := by
  constructor
  · intro h names node hnode
    refine ⟨?_, ?_⟩
    · rintro (rfl | hname) hlong
      · exact h _ (.list hnode hlong)
      · exact h _ (.look hname (by simp [hnode]) hlong)
    · rintro rfl
      exact Nat.not_le.1 fun hdeep => h _ (.nest hnode hdeep)
  · intro h e hlimit
    cases hlimit with
    | list place long => exact (h _ _ place).1 (.inl rfl) long
    | look name place long =>
      obtain ⟨node, hnode⟩ := Option.ne_none_iff_exists'.1 place
      exact (h _ _ hnode).1 (.inr name) long
    | nest place deep => exact absurd ((h _ _ place).2 rfl) (Nat.not_lt.2 deep)

/-- It is enough to look at the start and at what is listed below it. -/
instance (t : FileTree) (directory : Path) (l : Location) (room : Nat) :
    Decidable (t.WithinLimits directory l room) :=
  decidable_of_iff (∀ found ∈ (t.nodeAt l).toList.map (([] : List Text), ·) ++ t.below l,
      (found.2 = .directory ∨ isDocumentName found.1 →
        t.locate (directory.append found.1) ≠ .error .nameTooLong) ∧
      (found.2 = .directory → found.1.length < room)) (by
    rw [withinLimits_iff]
    have hmem : ∀ names node, (names, node) ∈ (t.nodeAt l).toList.map (([] : List Text), ·) ++ t.below l ↔
        t.nodeAt (l ++ names) = some node := by
      intro names node
      rw [List.mem_append, mem_below_iff]
      cases names <;> simp [eq_comm]
    simp only [Prod.forall, hmem])

theorem SameNodes.meetsLimit_iff (h : t.SameNodes t') {e : Failure} :
    t'.MeetsLimit directory l room e ↔ t.MeetsLimit directory l room e := by
  have hmeets : ∀ {t t' : FileTree}, t.SameNodes t' → t'.MeetsLimit directory l room e →
      t.MeetsLimit directory l room e := by
    intro t t' h hlimit
    cases hlimit with
    | list place long => exact .list (h.node _ ▸ place) (h.locate _ ▸ long)
    | look name place long => exact .look name (h.node _ ▸ place) (h.locate _ ▸ long)
    | nest place deep => exact .nest (h.node _ ▸ place) deep
  exact ⟨hmeets h, hmeets h.symm⟩

section

variable (grounded : t.IsGrounded) (hnames : t.HasFileNames)
  (hdirectory : t.find directory = .ok (l, .directory))
include grounded hnames hdirectory

/-- What lies below the directory can be walked to, unless its path is too long. -/
theorem locate_place (h : t.nodeAt (l ++ names) ≠ none) :
    t.locate (directory.append names) = .ok (l ++ names) ∨
      t.locate (directory.append names) = .error .nameTooLong := by
  have hl := (find_eq_ok_iff.1 hdirectory).1
  have hplain : ∀ name ∈ names, IsFileName name := fun name hname =>
    hasFileNames_iff.1 hnames _ h name (List.mem_append_right l hname)
  have habove : Path.aboveName ∉ names := fun habove => (hplain _ habove).ne_aboveName rfl
  rcases grounded.locate_append_cases hl habove h with hwalk | hwalk | hwalk
  · exact .inl hwalk
  · rw [locate_eq_nul_iff, Path.nul_mem_text_iff] at hwalk
    obtain ⟨name, hname, hnul⟩ := hwalk
    rcases List.mem_append.1 hname with hname | hname
    · exact absurd (Path.nul_mem_text_iff.2 ⟨name, hname, hnul⟩) (locate_eq_ok_iff.1 hl).1
    · exact absurd hnul (hplain name hname).noNul
  · exact .inr hwalk

theorem find_place {node : Node} (hnode : t.nodeAt (l ++ names) = some node) :
    t.find (directory.append names) =
      if t.locate (directory.append names) = .error .nameTooLong then .error .nameTooLong
      else .ok (l ++ names, node) := by
  have hthere : t.nodeAt (l ++ names) ≠ none := by simp [hnode]
  rcases locate_place grounded hnames hdirectory hthere with hwalk | hwalk
  · rw [if_neg (by simp [hwalk])]
    exact find_eq_ok_iff.2 ⟨hwalk, hnode⟩
  · rw [if_pos hwalk]
    exact bind_eq_error_iff.2 (.inl hwalk)

theorem examine_list (hnode : t.nodeAt (l ++ names) = some .directory) :
    t.examine directory maxDepth (.list names) =
      if t.locate (directory.append names) = .error .nameTooLong then
        .error (.file ⟨.nameTooLong, directory.append names, none⟩)
      else .ok none := by
  unfold examine listDirectory
  dsimp only
  rw [find_place grounded hnames hdirectory hnode]
  split_ifs <;> rfl

theorem examine_look (hthere : t.nodeAt (l ++ names) ≠ none) :
    t.examine directory maxDepth (.look names) =
      if t.locate (directory.append names) = .error .nameTooLong then
        .error (.file ⟨.nameTooLong, directory.append names, none⟩)
      else chosen maxDepth ((Visit.look names).file? t l) := by
  obtain ⟨node, hnode⟩ := Option.ne_none_iff_exists'.1 hthere
  unfold examine find? Visit.file?
  dsimp only
  rw [find_place grounded hnames hdirectory hnode, hnode]
  split_ifs
  · rfl
  · cases node with
    | directory => rfl
    | file content =>
      dsimp only [chosen]
      cases depthCheck maxDepth <;> rfl

omit grounded hnames hdirectory in
theorem chosen_eq_error {file : Option (List Text)} {e : Failure} (h : chosen maxDepth file = .error e) :
    depthCheck maxDepth = .error e := by
  cases file with
  | none => cases h
  | some names =>
    unfold chosen at h
    cases hdepth : depthCheck maxDepth with
    | ok allowed =>
      rw [hdepth] at h
      cases h
    | error e' =>
      rw [hdepth] at h
      cases h
      rfl

/-- A visit that fails has met a limit, unless it is the greatest depth that is at fault. -/
theorem examine_eq_error {visit : Visit} {e : Failure} (hvisit : visit ∈ t.visits l room)
    (h : t.examine directory maxDepth visit = .error e) :
    t.MeetsLimit directory l room e ∨ depthCheck maxDepth = .error e := by
  have hplace := (find_eq_ok_iff.1 hdirectory).2
  cases visit with
  | list names =>
    obtain ⟨-, hnode⟩ := (list_mem_visits_iff grounded hplace).1 hvisit
    rw [examine_list grounded hnames hdirectory hnode] at h
    split at h
    · next hlong =>
      cases h
      exact .inl (.list hnode hlong)
    · cases h
  | look names =>
    obtain ⟨hname, -, hthere⟩ := (look_mem_visits_iff grounded hplace).1 hvisit
    rw [examine_look grounded hnames hdirectory hthere] at h
    split at h
    · next hlong =>
      cases h
      exact .inl (.look hname hthere hlong)
    · exact .inr (chosen_eq_error h)
  | giveUp =>
    obtain ⟨names, hlength, hnode⟩ := (giveUp_mem_visits_iff grounded hplace).1 hvisit
    cases h
    exact .inl (.nest hnode hlength.ge)

omit hnames in
/-- A search has no room where a place lies deeper than there is room for. -/
theorem giveUp_mem_visits (hdeep : room ≤ names.length)
    (hnode : t.nodeAt (l ++ names.take room) = some .directory) : .giveUp ∈ t.visits l room :=
  (giveUp_mem_visits_iff grounded (find_eq_ok_iff.1 hdirectory).2).2
    ⟨names.take room, List.length_take_of_le hdeep, hnode⟩

/-- Where a limit is met, a visit fails, whatever the greatest depth is. -/
theorem exists_examine_eq_error {e : Failure} (h : t.MeetsLimit directory l room e) :
    ∃ visit ∈ t.visits l room, ∀ maxDepth, ∃ e', t.examine directory maxDepth visit = .error e' := by
  have hplace := (find_eq_ok_iff.1 hdirectory).2
  have hsplit : ∀ names : List Text, l ++ names = l ++ names.take room ++ names.drop room := by
    intro names
    rw [List.append_assoc, List.take_append_drop]
  have hgiveUp : ∀ {names : List Text}, room ≤ names.length → t.nodeAt (l ++ names.take room) = some .directory →
      ∃ visit ∈ t.visits l room, ∀ maxDepth, ∃ e', t.examine directory maxDepth visit = .error e' :=
    fun hdeep hnode =>
      ⟨.giveUp, giveUp_mem_visits grounded hdirectory hdeep hnode, fun _ => ⟨_, rfl⟩⟩
  cases h with
  | @list names place long =>
    by_cases hlength : names.length ≤ room
    · refine ⟨.list names, (list_mem_visits_iff grounded hplace).2 ⟨hlength, place⟩, fun maxDepth => ?_⟩
      rw [examine_list grounded hnames hdirectory place, if_pos long]
      exact ⟨_, rfl⟩
    · rw [hsplit] at place
      exact hgiveUp (Nat.le_of_not_le hlength) (grounded.directory_of_append place)
  | @look names name place long =>
    by_cases hlength : names.length ≤ room + 1
    · refine ⟨.look names, (look_mem_visits_iff grounded hplace).2 ⟨name, hlength, place⟩, fun maxDepth => ?_⟩
      rw [examine_look grounded hnames hdirectory place, if_pos long]
      exact ⟨_, rfl⟩
    · have hrest : names.drop room ≠ [] := by
        rw [Ne, List.drop_eq_nil_iff]
        omega
      rw [hsplit] at place
      exact hgiveUp (by omega) (grounded.above hrest place)
  | @nest names place deep =>
    rw [hsplit] at place
    exact hgiveUp deep (grounded.directory_of_append place)

/-- Within the limits, only the files count that are looked at. -/
theorem examine_of_withinLimits (within : t.WithinLimits directory l room) {visit : Visit}
    (hvisit : visit ∈ t.visits l room) :
    t.examine directory maxDepth visit = chosen maxDepth (visit.file? t l) := by
  have hplace := (find_eq_ok_iff.1 hdirectory).2
  cases visit with
  | list names =>
    obtain ⟨-, hnode⟩ := (list_mem_visits_iff grounded hplace).1 hvisit
    rw [examine_list grounded hnames hdirectory hnode, if_neg fun hlong => within _ (.list hnode hlong)]
    rfl
  | look names =>
    obtain ⟨hname, -, hthere⟩ := (look_mem_visits_iff grounded hplace).1 hvisit
    rw [examine_look grounded hnames hdirectory hthere,
      if_neg fun hlong => within _ (.look hname hthere hlong)]
  | giveUp =>
    obtain ⟨names, hlength, hnode⟩ := (giveUp_mem_visits_iff grounded hplace).1 hvisit
    exact absurd (.nest hnode hlength.ge) (within _)

omit hnames in
/-- Within the limits, everything with the name of a document is looked at. -/
theorem look_mem_visits (within : t.WithinLimits directory l room) (hname : isDocumentName names)
    (hthere : t.nodeAt (l ++ names) ≠ none) : .look names ∈ t.visits l room := by
  refine (look_mem_visits_iff grounded (find_eq_ok_iff.1 hdirectory).2).2 ⟨hname, ?_, hthere⟩
  rcases List.eq_nil_or_concat names with rfl | ⟨above, name, rfl⟩
  · exact absurd hname (by decide)
  · rw [List.concat_eq_append, ← List.append_assoc] at hthere
    have habove := (withinLimits_iff.1 within above _ (grounded _ _ hthere)).2 rfl
    simpa using Nat.le_of_lt habove

omit hnames in
/-- Within the limits, the files that are looked at are the documents below the directory. -/
theorem file?_eq_some_iff (within : t.WithinLimits directory l room) :
    (∃ visit ∈ t.visits l room, visit.file? t l = some names) ↔ names ∈ t.documentsBelow l := by
  rw [mem_documentsBelow_iff]
  constructor
  · rintro ⟨visit, hvisit, hfile⟩
    cases visit with
    | list place => cases hfile
    | giveUp => cases hfile
    | look place =>
      obtain ⟨hname, -, -⟩ := (look_mem_visits_iff grounded (find_eq_ok_iff.1 hdirectory).2).1 hvisit
      unfold Visit.file? at hfile
      dsimp only at hfile
      split at hfile
      · next content hnode =>
        cases hfile
        exact ⟨hname, content, hnode⟩
      · cases hfile
  · rintro ⟨hname, content, hnode⟩
    refine ⟨.look names, look_mem_visits grounded hdirectory within hname (by simp [hnode]), ?_⟩
    unfold Visit.file?
    dsimp only
    rw [hnode]

end

/-- No file is looked at twice. -/
theorem nodup_files : ((t.visits l room).filterMap fun visit => visit.file? t l).Nodup := by
  have hlook : ∀ {visit : Visit} {names}, visit.file? t l = some names → visit = .look names := by
    intro visit names h
    cases visit with
    | list place => cases h
    | giveUp => cases h
    | look place =>
      unfold Visit.file? at h
      dsimp only at h
      split at h
      · cases h
        rfl
      · cases h
  refine pairwise_visits.filterMap _ fun visit visit' honce names h names' h' hsame => ?_
  exact honce names (hlook h) (hsame ▸ hlook h')

end FileTree

end LootTables
