import LootTables.Proofs.Files.Change
import LootTables.Proofs.Text.Numeral
import Mathlib.Data.List.Nodup

/-!
# Where a temporary file goes

A temporary file lies in the directory of the file that it is going to replace. More tags are tried
for its name than there are places in the tree, and no two tags give the same name, so the path that is
chosen in the end is the first at which there is nothing (`temporaryPath_first`). Its name is longer than
that of the output and fails for want of room no later: an output whose own path is refused has no
temporary file either, and it is refused for the same fault (`locate_temporary_eq_error`). Being longer,
it is another name, so what is at the output makes no difference to it (`DifferAt.temporaryPath`).
-/

namespace LootTables

/-! ### The name -/

namespace Text

theorem natOfDigits_zeros (k : Nat) (digits : Text) :
    natOfDigits (zeros k ++ digits) = natOfDigits digits := by
  induction k with
  | zero => rfl
  | succ k ih => exact ih

end Text

/-- The hidden name of a temporary file that is going to replace `name`, under any tag. -/
def hiddenName (name tag : Text) : Text := "." ++ name ++ "." ++ tag ++ ".tmp"

/-- A hidden name is longer than the name that it hides, and than a step up. -/
theorem lt_length_hiddenName (name tag : Text) :
    name.length < (hiddenName name tag).length ∧ 2 < (hiddenName name tag).length := by
  have hend : (".tmp" : Text).length = 4 := rfl
  unfold hiddenName
  simp only [List.length_append, hend]
  omega

theorem hiddenName_ne (name tag : Text) : hiddenName name tag ≠ name := by
  intro h
  have hlength := (lt_length_hiddenName name tag).1
  rw [h] at hlength
  exact Nat.lt_irrefl _ hlength

theorem hiddenName_ne_aboveName (name tag : Text) : hiddenName name tag ≠ Path.aboveName := by
  intro h
  have hlength := (lt_length_hiddenName name tag).2
  rw [h] at hlength
  exact Nat.lt_irrefl _ hlength

/-- The tag of a temporary name, with zeros in front. -/
def paddedTag (tag : Nat) : Text := Text.zeros (tagWidth - (Text.ofNat tag).length) ++ Text.ofNat tag

theorem temporaryName_eq (name : Text) (tag : Nat) :
    temporaryName name tag = "." ++ name ++ "." ++ paddedTag tag ++ ".tmp" := by
  simp [temporaryName, paddedTag]

theorem temporaryName_eq_hiddenName (name : Text) (tag : Nat) :
    temporaryName name tag = hiddenName name (paddedTag tag) := temporaryName_eq name tag

/-- Different tags give different names. -/
theorem temporaryName_injective {name : Text} {m n : Nat}
    (h : temporaryName name m = temporaryName name n) : m = n := by
  rw [temporaryName_eq, temporaryName_eq] at h
  have htag : paddedTag m = paddedTag n := List.append_cancel_left (List.append_cancel_right h)
  have hvalue := congrArg Text.natOfDigits htag
  unfold paddedTag at hvalue
  rwa [Text.natOfDigits_zeros, Text.natOfDigits_zeros, Text.natOfDigits_ofNat,
    Text.natOfDigits_ofNat] at hvalue

theorem temporaryName_ne_aboveName (name : Text) (tag : Nat) :
    temporaryName name tag ≠ Path.aboveName := by
  rw [temporaryName_eq_hiddenName]
  exact hiddenName_ne_aboveName name _

theorem temporaryName_ne_nil (name : Text) (tag : Nat) : temporaryName name tag ≠ [] := by
  rw [temporaryName_eq]
  exact List.append_ne_nil_of_right_ne_nil _ (List.cons_ne_nil _ _)

/-- The tag adds no NUL to a name. -/
theorem nul_mem_temporaryName_iff {name : Text} {tag : Nat} :
    CodePoint.ofNat 0 ∈ temporaryName name tag ↔ CodePoint.ofNat 0 ∈ name := by
  have htag : CodePoint.ofNat 0 ∉ paddedTag tag := by
    unfold paddedTag Text.zeros
    rw [List.mem_append, List.mem_replicate, not_or]
    exact ⟨fun h => absurd h.2 (by decide), fun h => absurd (Text.isDigit_of_mem_ofNat h) (by decide)⟩
  have hdot : CodePoint.ofNat 0 ∉ (("." : String) : Text) := by decide
  have hend : CodePoint.ofNat 0 ∉ ((".tmp" : String) : Text) := by decide
  rw [temporaryName_eq]
  simp only [List.mem_append, hdot, htag, hend, false_or, or_false]

theorem temporaryName_ne (name : Text) (tag : Nat) : temporaryName name tag ≠ name := by
  rw [temporaryName_eq_hiddenName]
  exact hiddenName_ne name _

theorem Utf8.encodedLength_append (a b : Text) :
    encodedLength (a ++ b) = encodedLength a + encodedLength b := by
  unfold encodedLength
  rw [List.flatMap_append, List.length_append]

theorem encodedLength_le_temporaryName (name : Text) (tag : Nat) :
    Utf8.encodedLength name ≤ Utf8.encodedLength (temporaryName name tag) := by
  rw [temporaryName_eq]
  simp only [Utf8.encodedLength_append]
  omega

/-! ### The path -/

theorem Text.join_concat (separator : Text) (texts : List Text) :
    ∃ before, ∀ s, join separator (texts ++ [s]) = before ++ s := by
  cases texts with
  | nil => exact ⟨[], fun s => by simp [join]⟩
  | cons first texts =>
    refine ⟨first ++ texts.flatMap (separator ++ ·) ++ separator, fun s => ?_⟩
    rw [List.cons_append, join_cons, List.flatMap_append]
    simp

/-- The text of a path ends with its last name, which only an empty text keeps from being so. -/
theorem Path.text_append_singleton (q : Path) : ∃ before, ∀ name,
    before ++ name ≠ [] ∧ (q.append [name]).text = before ++ name ∨
      before ++ name = [] ∧ (q.append [name]).text = selfName := by
  obtain ⟨before, hbefore⟩ := Text.join_concat "/" q.parts
  refine ⟨q.anchor.text ++ before, fun name => ?_⟩
  have htext : q.anchor.text ++ Text.join "/" (q.append [name]).parts =
      q.anchor.text ++ before ++ name := by
    rw [List.append_assoc, ← hbefore name]
    rfl
  unfold Path.text
  have hanchor : (q.append [name]).anchor = q.anchor := rfl
  rw [hanchor, htext]
  cases hwhole : q.anchor.text ++ before ++ name with
  | nil => exact .inr ⟨rfl, rfl⟩
  | cons c s => exact .inl ⟨List.cons_ne_nil c s, rfl⟩

/-- What joined texts hold is in one of them or in the separator. -/
theorem Text.mem_join_iff {separator : Text} {texts : List Text} {c : CodePoint}
    (hseparator : c ∉ separator) : c ∈ join separator texts ↔ ∃ s ∈ texts, c ∈ s := by
  cases texts with
  | nil => simp [join]
  | cons first texts =>
    rw [join_cons, List.mem_append, List.mem_flatMap, List.exists_mem_cons_iff]
    simp only [List.mem_append, hseparator, false_or]

/-- A path holds a NUL exactly if one of its names does. -/
theorem Path.nul_mem_text_iff {p : Path} :
    CodePoint.ofNat 0 ∈ p.text ↔ ∃ name ∈ p.parts, CodePoint.ofNat 0 ∈ name := by
  have hanchor : CodePoint.ofNat 0 ∉ p.anchor.text := by cases p.anchor <;> decide
  have hslash : CodePoint.ofNat 0 ∉ (("/" : String) : Text) := by decide
  have hself : CodePoint.ofNat 0 ∉ selfName := by decide
  rw [← Text.mem_join_iff hslash]
  unfold text
  split
  · next hnil =>
    rw [(List.append_eq_nil_iff.1 hnil).2]
    simp [hself]
  · rw [List.mem_append]
    exact or_iff_right hanchor

/-- The path of a temporary file holds a NUL exactly if that of the output does. -/
theorem Path.nul_mem_temporary_iff {q : Path} {name : Text} {tag : Nat} :
    CodePoint.ofNat 0 ∈ (q.append [temporaryName name tag]).text ↔
      CodePoint.ofNat 0 ∈ (q.append [name]).text := by
  rw [nul_mem_text_iff, nul_mem_text_iff]
  simp only [append, List.mem_append, List.mem_singleton, or_and_right, exists_or, exists_eq_left,
    nul_mem_temporaryName_iff]

/-- The path of a temporary file is not shorter than that of the output. -/
theorem Path.encodedLength_le_temporary (q : Path) (name : Text) (tag : Nat) :
    Utf8.encodedLength (q.append [name]).text ≤
      Utf8.encodedLength (q.append [temporaryName name tag]).text := by
  obtain ⟨before, htext⟩ := q.text_append_singleton
  obtain ⟨-, htemporary⟩ | ⟨hnil, -⟩ := htext (temporaryName name tag)
  · have hle := encodedLength_le_temporaryName name tag
    rw [htemporary, Utf8.encodedLength_append]
    obtain ⟨-, hname⟩ | ⟨-, hname⟩ := htext name
    · rw [hname, Utf8.encodedLength_append]
      omega
    · have hself : Utf8.encodedLength selfName = 1 := by decide
      have hdot : Utf8.encodedLength (("." : String) : Text) = 1 := by decide
      rw [hname, hself, temporaryName_eq]
      simp only [Utf8.encodedLength_append, hdot]
      omega
  · exact absurd (List.append_eq_nil_iff.1 hnil).2 (temporaryName_ne_nil name tag)

theorem Path.parent_of_parts_nil {p : Path} (h : p.parts = []) : p.parent = p := by
  unfold parent
  cases p
  cases h
  rfl

theorem Path.EndsInName.parts_ne_nil {p : Path} (h : p.EndsInName) : p.parts ≠ [] :=
  mt List.getLast?_eq_none_iff.2 h.1

theorem Path.eq_parent_append {p : Path} (h : p.parts ≠ []) : p = p.parent.append [p.name] := by
  have hparts : p.parts = p.parts.dropLast ++ [p.parts.getLast?.getD []] := by
    rw [List.getLast?_eq_some_getLast h]
    exact (List.dropLast_concat_getLast h).symm
  unfold Path.append Path.parent Path.name
  cases p
  rw [Path.mk.injEq]
  exact ⟨rfl, hparts⟩

/-- The text of the path to the directory is one dot, or it begins the text of the path. -/
theorem Path.text_parent (p : Path) : p.parent.text = selfName ∨ p.parent.text <+: p.text := by
  have hparts : Text.join "/" p.parts.dropLast <+: Text.join "/" p.parts := by
    rcases List.eq_nil_or_concat p.parts with hnil | ⟨names, name, hconcat⟩
    · rw [hnil]
      exact List.prefix_rfl
    · rw [hconcat, List.concat_eq_append, List.dropLast_concat]
      cases names with
      | nil => exact List.nil_prefix
      | cons first names =>
        rw [List.cons_append, Text.join_cons, Text.join_cons, List.flatMap_append, ← List.append_assoc]
        exact List.prefix_append _ _
  have hbegins : p.anchor.text ++ Text.join "/" p.parts.dropLast <+:
      p.anchor.text ++ Text.join "/" p.parts := (List.prefix_append_right_inj _).2 hparts
  unfold text parent
  dsimp only
  cases hparent : p.anchor.text ++ Text.join "/" p.parts.dropLast with
  | nil => exact .inl rfl
  | cons c s =>
    rw [hparent] at hbegins
    cases hwhole : p.anchor.text ++ Text.join "/" p.parts with
    | nil =>
      rw [hwhole] at hbegins
      exact absurd (List.prefix_nil.1 hbegins) (List.cons_ne_nil c s)
    | cons c' s' =>
      rw [hwhole] at hbegins
      exact .inr hbegins

namespace FileTree

variable {t t' : FileTree} {p q : Path} {l : Location} {name : Text} {fault : FileFault}

theorem step_of_directory (h : t.nodeAt l = some .directory) :
    t.step l name = if name = Path.aboveName then .ok l.dropLast
      else if nameLimit < Utf8.encodedLength name then .error .nameTooLong
      else .ok (l ++ [name]) := by
  unfold step
  rw [h]

/-- Inside a directory, only the last name decides on what is found. -/
theorem locate_append_singleton (h : t.find q = .ok (l, .directory)) :
    t.locate (q.append [name]) =
      if CodePoint.ofNat 0 ∈ (q.append [name]).text then .error .nul
      else if pathLimit < Utf8.encodedLength (q.append [name]).text then .error .nameTooLong
      else if name = Path.aboveName then .ok l.dropLast
      else if nameLimit < Utf8.encodedLength name then .error .nameTooLong
      else .ok (l ++ [name]) := by
  obtain ⟨hl, hdirectory⟩ := find_eq_ok_iff.1 h
  obtain ⟨-, -, hwalk⟩ := locate_eq_ok_iff.1 hl
  have hlast : (q.append [name]).parts.foldlM t.step (t.start (q.append [name])) = t.step l name := by
    change (q.parts ++ [name]).foldlM t.step (t.start q) = t.step l name
    rw [List.foldlM_append, hwalk]
    exact bind_pure (t.step l name)
  unfold locate
  rw [hlast, step_of_directory hdirectory]

/-- A walk to a place leads through the directory that it lies in. -/
theorem find_parent_of_locate (hparts : p.parts ≠ []) (h : t.locate p = .ok l) :
    ∃ k, t.find p.parent = .ok (k, .directory) := by
  obtain ⟨hnul, hlength, hwalk⟩ := locate_eq_ok_iff.1 h
  have hsplit : p.parts = p.parent.parts ++ [p.name] := congrArg Path.parts (Path.eq_parent_append hparts)
  rw [hsplit, List.foldlM_append] at hwalk
  obtain ⟨k, hk, hlast⟩ := bind_eq_ok_iff.1 hwalk
  obtain ⟨next, hstep, -⟩ := bind_eq_ok_iff.1 hlast
  have hdirectory : t.nodeAt k = some .directory := by
    unfold step at hstep
    split at hstep
    · cases hstep
    · cases hstep
    · next hdirectory => exact hdirectory
  have hnul' : CodePoint.ofNat 0 ∉ p.parent.text := by
    intro hmem
    obtain ⟨name, hname, hmem⟩ := Path.nul_mem_text_iff.1 hmem
    exact hnul (Path.nul_mem_text_iff.2 ⟨name, List.dropLast_subset p.parts hname, hmem⟩)
  have hlength' : Utf8.encodedLength p.parent.text ≤ pathLimit := by
    rcases p.text_parent with hself | ⟨rest, hrest⟩
    · rw [hself]
      decide
    · rw [← hrest, Utf8.encodedLength_append] at hlength
      exact Nat.le_trans (Nat.le_add_right _ _) hlength
  exact ⟨k, find_eq_ok_iff.2 ⟨locate_eq_ok_iff.2 ⟨hnul', hlength', hk⟩, hdirectory⟩⟩

/-- A path that ends in a name leads to this name in its directory. -/
theorem eq_concat_of_locate (hname : p.EndsInName) (hparent : t.find p.parent = .ok (l, .directory))
    {k : Location} (h : t.locate p = .ok k) : k = l ++ [p.name] := by
  have habove : Path.aboveName ∉ [p.name] := by
    intro hmem
    refine hname.2 ?_
    rw [List.mem_singleton.1 hmem]
    unfold Path.name
    rw [List.getLast?_eq_some_getLast hname.parts_ne_nil]
    rfl
  rw [Path.eq_parent_append hname.parts_ne_nil] at h
  exact locate_append (find_eq_ok_iff.1 hparent).1 habove h

/-- What is next to the output lies in the same directory, under its own name. -/
theorem locate_sibling (hname : name ≠ Path.aboveName) (h : t.locate (p.sibling name) = .ok l) :
    ∃ k, t.find p.parent = .ok (k, .directory) ∧ l = k ++ [name] := by
  have hparts : (p.sibling name).parts ≠ [] := by simp [Path.sibling, Path.append]
  have hparent : (p.sibling name).parent = p.parent := by simp [Path.sibling, Path.append, Path.parent]
  obtain ⟨k, hk⟩ := find_parent_of_locate hparts h
  rw [hparent] at hk
  have habove : Path.aboveName ∉ [name] := fun hmem => hname (List.mem_singleton.1 hmem).symm
  exact ⟨k, hk, locate_append (find_eq_ok_iff.1 hk).1 habove h⟩

/-- A file under a hidden name is not where the output is. -/
theorem ne_of_locate_hiddenName {tag : Text} {k : Location}
    (h : t.locate (p.sibling (hiddenName p.name tag)) = .ok l) (hk : t.locate p = .ok k) : k ≠ l := by
  obtain ⟨directory, hparent, rfl⟩ := locate_sibling (hiddenName_ne_aboveName p.name tag) h
  intro heq
  by_cases hparts : p.parts = []
  · rw [Path.parent_of_parts_nil hparts] at hparent
    cases (find_eq_ok_iff.1 hparent).1.symm.trans hk
    simp at heq
  · rw [Path.eq_parent_append hparts, locate_append_singleton hparent] at hk
    split_ifs at hk
    · cases hk
      have hlength := congrArg List.length heq
      simp at hlength
    · cases hk
      exact hiddenName_ne p.name tag (List.cons.inj (List.append_cancel_left heq)).1.symm

/-- An output that has no place leaves none for its temporary file, for the same fault. -/
theorem locate_temporary_eq_error (hparent : t.find p.parent = .ok (l, .directory))
    (h : t.locate p = .error fault) (tag : Nat) :
    t.locate (p.sibling (temporaryName p.name tag)) = .error fault := by
  have hparts : p.parts ≠ [] := by
    intro hnil
    rw [Path.parent_of_parts_nil hnil] at hparent
    cases (find_eq_ok_iff.1 hparent).1.symm.trans h
  rw [Path.eq_parent_append hparts, locate_append_singleton hparent] at h
  unfold Path.sibling
  rw [locate_append_singleton hparent]
  rw [if_neg (temporaryName_ne_aboveName p.name tag)]
  -- The checks are made in the same order for both paths, and the temporary one is the longer.
  have hnul : CodePoint.ofNat 0 ∈ (p.parent.append [temporaryName p.name tag]).text ↔
      CodePoint.ofNat 0 ∈ (p.parent.append [p.name]).text := Path.nul_mem_temporary_iff
  have hpath := p.parent.encodedLength_le_temporary p.name tag
  have hname := encodedLength_le_temporaryName p.name tag
  split at h
  · next hmem =>
    rw [if_pos (hnul.2 hmem)]
    exact h
  · next hmem =>
    rw [if_neg (mt hnul.1 hmem)]
    split at h
    · next hlong =>
      rw [if_pos (Nat.lt_of_lt_of_le hlong hpath)]
      exact h
    · split at h
      · cases h
      · split at h
        · next hlong =>
          rw [if_pos (Nat.lt_of_lt_of_le hlong hname), ite_self]
          exact h
        · cases h

/-! ### A free place -/

/-- What is found at a path that ends in a name lies directly below where the rest of the path leads. -/
theorem find_append_singleton {node : Node} (hname : name ≠ Path.aboveName)
    (h : t.find (q.append [name]) = .ok (l, node)) :
    ∃ k, q.parts.foldlM t.step (t.start q) = .ok k ∧ l = k ++ [name] := by
  obtain ⟨-, -, hwalk⟩ := locate_eq_ok_iff.1 (find_eq_ok_iff.1 h).1
  have hparts : (q.parts ++ [name]).foldlM t.step (t.start q) = .ok l := hwalk
  rw [List.foldlM_append] at hparts
  obtain ⟨k, hk, hstep⟩ := bind_eq_ok_iff.1 hparts
  have habove : Path.aboveName ∉ [name] := fun hmem => hname (List.mem_singleton.1 hmem).symm
  exact ⟨k, hk, ((walk_eq_ok_iff habove).1 hstep).1⟩

/-- The tags are tried in order, up to the first free one or to the last. -/
theorem temporaryPath_cases (t : FileTree) (p : Path) (tries first : Nat) :
    ∃ tag, t.temporaryPath p tries first = p.sibling (temporaryName p.name tag) ∧
      (∀ i, first ≤ i → i < tag → ∃ found, t.find (p.sibling (temporaryName p.name i)) = .ok found) ∧
      (tag = first + tries ∨
        ∀ found, t.find (p.sibling (temporaryName p.name tag)) ≠ .ok found) := by
  induction tries generalizing first with
  | zero => exact ⟨first, rfl, fun i hle hlt => absurd hlt (Nat.not_lt.2 hle), .inl rfl⟩
  | succ tries ih =>
    unfold temporaryPath
    dsimp only
    split
    · next found htaken =>
      obtain ⟨tag, heq, hbefore, hlast⟩ := ih (first + 1)
      refine ⟨tag, heq, fun i hle hlt => ?_, hlast.imp_left fun h => by omega⟩
      rcases Nat.eq_or_lt_of_le hle with rfl | hlt'
      · exact ⟨found, htaken⟩
      · exact hbefore i hlt' hlt
    · next fault hfree =>
      refine ⟨first, rfl, fun i hle hlt => absurd hlt (Nat.not_lt.2 hle), .inr fun found h => ?_⟩
      cases hfree.symm.trans h

/-- The path that is chosen for a temporary file is the first one at which there is nothing. -/
theorem temporaryPath_first (t : FileTree) (p : Path) :
    ∃ tag, t.temporaryPath p t.entries.length 0 = p.sibling (temporaryName p.name tag) ∧
      (∀ i < tag, ∃ found, t.find (p.sibling (temporaryName p.name i)) = .ok found) ∧
      ∀ found, t.find (p.sibling (temporaryName p.name tag)) ≠ .ok found := by
  obtain ⟨tag, heq, hbefore, hlast⟩ := t.temporaryPath_cases p t.entries.length 0
  refine ⟨tag, heq, fun i hi => hbefore i (Nat.zero_le i) hi, fun found hfound => ?_⟩
  rcases hlast with hlast | hfree
  -- If the last tag was taken, too, there would be one place too many.
  · have htaken : ∀ i, i < tag + 1 →
        ∃ found, t.find (p.sibling (temporaryName p.name i)) = .ok found := by
      intro i hi
      rcases Nat.lt_succ_iff_lt_or_eq.1 hi with hlt | rfl
      · exact hbefore i (Nat.zero_le i) hlt
      · exact ⟨found, hfound⟩
    obtain ⟨⟨l₀, node₀⟩, h₀⟩ := htaken 0 (Nat.zero_lt_succ tag)
    obtain ⟨k, hk, -⟩ := find_append_singleton (temporaryName_ne_aboveName p.name 0) h₀
    have hsub : (List.range (tag + 1)).map (fun i => k ++ [temporaryName p.name i]) ⊆
        Assoc.keys t.entries := by
      intro l hl
      obtain ⟨i, hi, rfl⟩ := List.mem_map.1 hl
      obtain ⟨⟨l, node⟩, hfind⟩ := htaken i (List.mem_range.1 hi)
      obtain ⟨k', hk', rfl⟩ := find_append_singleton (temporaryName_ne_aboveName p.name i) hfind
      cases hk.symm.trans hk'
      have hnode := (find_eq_ok_iff.1 hfind).2
      exact List.mem_map_of_mem (f := Prod.fst) ((mem_entries_iff (by simp)).2 hnode)
    have hnodup : ((List.range (tag + 1)).map fun i => k ++ [temporaryName p.name i]).Nodup := by
      refine List.Nodup.map (fun i j hij => ?_) List.nodup_range
      exact temporaryName_injective (List.cons.inj (List.append_cancel_left hij)).1
    have hlength := hnodup.length_le_of_subset hsub
    unfold Assoc.keys at hlength
    rw [List.length_map, List.length_range, List.length_map] at hlength
    omega
  · exact hfree found hfound

theorem nodeAt_temporaryPath (h : t.locate (t.temporaryPath p t.entries.length 0) = .ok l) :
    t.nodeAt l = none := by
  obtain ⟨tag, heq, -, hfree⟩ := t.temporaryPath_first p
  rw [heq] at h
  cases hnode : t.nodeAt l with
  | none => rfl
  | some node => exact absurd (find_eq_ok_iff.2 ⟨h, hnode⟩) (hfree (l, node))

theorem locate_temporaryPath_eq_error (hparent : t.find p.parent = .ok (l, .directory))
    (h : t.locate p = .error fault) :
    t.locate (t.temporaryPath p t.entries.length 0) = .error fault := by
  obtain ⟨tag, heq, -⟩ := t.temporaryPath_first p
  rw [heq]
  exact locate_temporary_eq_error hparent h tag

/-- Trees in which the same tags are taken have the same path for a temporary file. -/
theorem temporaryPath_congr
    (h : ∀ tag, (∃ found, t'.find (p.sibling (temporaryName p.name tag)) = .ok found) ↔
      ∃ found, t.find (p.sibling (temporaryName p.name tag)) = .ok found) :
    t'.temporaryPath p t'.entries.length 0 = t.temporaryPath p t.entries.length 0 := by
  obtain ⟨tag, heq, hbefore, hfree⟩ := t.temporaryPath_first p
  obtain ⟨tag', heq', hbefore', hfree'⟩ := t'.temporaryPath_first p
  rw [heq, heq']
  -- Of two first free tags, none comes before the other.
  rcases Nat.lt_trichotomy tag tag' with hlt | rfl | hlt
  · obtain ⟨found, hfound⟩ := (h tag).1 (hbefore' tag hlt)
    exact absurd hfound (hfree found)
  · rfl
  · obtain ⟨found, hfound⟩ := (h tag').2 (hbefore tag' hlt)
    exact absurd hfound (hfree' found)

namespace DifferAt

variable {k : Location}

/-- Whether a tag is taken does not depend on what is at the output. -/
theorem find_temporary (h : t.DifferAt t' l) (hparent : t.find p.parent = .ok (k, .directory))
    (hl : l = k ++ [p.name]) {tag : Nat} {found : Location × Node}
    (hfound : t.find (p.sibling (temporaryName p.name tag)) = .ok found) :
    t'.find (p.sibling (temporaryName p.name tag)) = .ok found := by
  obtain ⟨m, node⟩ := found
  obtain ⟨hm, hnode⟩ := find_eq_ok_iff.1 hfound
  have hne : m ≠ l := by
    obtain ⟨k', hk', rfl⟩ := locate_sibling (temporaryName_ne_aboveName p.name tag) hm
    cases hparent.symm.trans hk'
    rw [hl]
    intro heq
    exact temporaryName_ne p.name tag (List.cons.inj (List.append_cancel_left heq)).1
  exact find_eq_ok_iff.2 ⟨h.keepsDirectories.locate hm, (h.node m hne).trans hnode⟩

/-- What is at the output makes no difference to its temporary file. -/
theorem temporaryPath (h : t.DifferAt t' l) (hparent : t.find p.parent = .ok (k, .directory))
    (hl : l = k ++ [p.name]) :
    t'.temporaryPath p t'.entries.length 0 = t.temporaryPath p t.entries.length 0 :=
  temporaryPath_congr fun _ =>
    ⟨fun ⟨found, hfound⟩ => ⟨found, h.symm.find_temporary (h.keepsDirectories.find_directory hparent) hl hfound⟩,
      fun ⟨found, hfound⟩ => ⟨found, h.find_temporary hparent hl hfound⟩⟩

end DifferAt

end FileTree

end LootTables
