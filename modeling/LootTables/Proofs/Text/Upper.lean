import Mathlib.Data.List.Basic
import LootTables.Proofs.Text.Cut
import LootTables.Table.Name

/-!
# What upper-casing produces

Upper-casing makes letters out of letters. The code points that change and the code points that they
become are two lists of progressions, and no member of the one is a member of the other. So upper
case stays as it is (`upper_upper`), and what is no image of a letter is in a text in upper case
only when it was there before (`mem_upper_of_not_isImage`). That holds of the punctuation and the
control characters of ASCII below the letters, and a name that avoids marks of this kind still avoids
them as a constant.
-/

namespace LootTables.Text

namespace Upper

/-! ### Progressions -/

/-- Every `step`-th number from `first` to `last`. -/
structure Progression where
  first : Nat
  last : Nat
  step : Nat

namespace Progression

/-- The number is one of the progression. -/
def Has (p : Progression) (n : Nat) : Prop := p.first ≤ n ∧ n ≤ p.last ∧ (n - p.first) % p.step = 0

/-- The progression of a single number. -/
def point (n : Nat) : Progression := ⟨n, n, 1⟩

theorem has_point_iff {m n : Nat} : (point m).Has n ↔ n = m := by
  unfold Has point
  dsimp only
  omega

/-- A test that two progressions have no number in common: one ends before the other begins, or all
numbers of the first leave a remainder that those of the second do not leave. -/
def apart (p q : Progression) : Bool :=
  Nat.blt p.last q.first || Nat.blt q.last p.first ||
    (!Nat.beq (p.first % q.step) (q.first % q.step) &&
      (Nat.beq p.first p.last || Nat.beq (p.step % q.step) 0))

theorem Has.mod_eq {p : Progression} {n : Nat} (h : p.Has n) : n % p.step = p.first % p.step := by
  obtain ⟨hfirst, -, hstep⟩ := h
  obtain ⟨k, hk⟩ := Nat.dvd_of_mod_eq_zero hstep
  have hn : n = p.first + p.step * k := by omega
  rw [hn, Nat.add_mul_mod_self_left]

theorem not_has_of_apart {p q : Progression} (h : p.apart q) {n : Nat} (hp : p.Has n) :
    ¬ q.Has n := by
  intro hq
  have hmod := hq.mod_eq
  obtain ⟨hpfirst, hplast, hpstep⟩ := hp
  obtain ⟨hqfirst, hqlast, -⟩ := hq
  simp only [apart, Bool.or_eq_true, Bool.and_eq_true, Bool.not_eq_true', Nat.blt_eq, Nat.beq_eq,
    Bool.eq_false_iff, ne_eq] at h
  rcases h with (hbefore | hafter) | ⟨hremainder, hsingle | hsteps⟩
  · omega
  · omega
  · obtain rfl : n = p.first := by omega
    exact hremainder hmod
  · -- A step of the first progression is some steps of the second, so the remainder stays.
    have hdvd : q.step ∣ n - p.first :=
      Nat.dvd_trans (Nat.dvd_of_mod_eq_zero hsteps) (Nat.dvd_of_mod_eq_zero hpstep)
    obtain ⟨k, hk⟩ := hdvd
    have hn : n = p.first + q.step * k := by omega
    rw [hn, Nat.add_mul_mod_self_left] at hmod
    exact hremainder hmod

end Progression

/-! ### The two sides of the mapping -/

/-- The code points of a run. -/
def Run.domain (r : Run) : Progression := ⟨r.first, r.last, r.step⟩

/-- What they become. -/
def Run.codomain (r : Run) : Progression := ⟨r.image, r.image + (r.last - r.first), r.step⟩

/-- The code points that change. -/
def domains : List Progression := runs.map Run.domain ++ expansions.map fun e => .point e.1

/-- The code points that they become. -/
def images : List Progression :=
  runs.map Run.codomain ++ expansions.flatMap fun e => e.2.map Progression.point

/-- The number is a code point that another one becomes. -/
def IsImage (n : Nat) : Prop := ∃ p ∈ images, p.Has n

theorem images_bounds : ∀ p ∈ images, 0x41 ≤ p.first ∧ p.last < 0x110000 := by
  decide +kernel

theorem images_apart_domains : (images.all fun p => domains.all p.apart) = true := by
  decide +kernel

theorem IsImage.bounds {n : Nat} (h : IsImage n) : 0x41 ≤ n ∧ n < 0x110000 := by
  obtain ⟨p, hp, hfirst, hlast, -⟩ := h
  have hbounds := images_bounds p hp
  omega

/-- Progressions that are apart from all images hold none of them. -/
theorem not_isImage_of_apart {qs : List Progression}
    (h : (images.all fun p => qs.all p.apart) = true) {n : Nat} (hn : ∃ q ∈ qs, q.Has n) :
    ¬ IsImage n := by
  rintro ⟨p, hp, himage⟩
  obtain ⟨q, hq, hn⟩ := hn
  exact Progression.not_has_of_apart (List.all_eq_true.1 (List.all_eq_true.1 h p hp) q hq) himage hn

theorem IsImage.not_domain {n : Nat} (h : IsImage n) : ∀ q ∈ domains, ¬ q.Has n :=
  fun q hq hn => not_isImage_of_apart images_apart_domains ⟨q, hq, hn⟩ h

theorem Run.image?_eq_none_iff {r : Run} {n : Nat} : r.image? n = none ↔ ¬ r.domain.Has n := by
  unfold Run.image? domain Progression.Has
  simp

theorem Run.codomain_has {r : Run} {n m : Nat} (h : r.image? n = some m) : r.codomain.Has m := by
  unfold Run.image? at h
  split at h
  · next hin =>
    cases h
    obtain ⟨hfirst, hlast, hstep⟩ := hin
    refine ⟨Nat.le_add_right _ _, Nat.add_le_add_left (Nat.sub_le_sub_right hlast _) _, ?_⟩
    unfold codomain
    rw [Nat.add_sub_cancel_left]
    exact hstep
  · cases h

theorem Run.isImage {r : Run} (hr : r ∈ runs) {n m : Nat} (h : r.image? n = some m) : IsImage m :=
  ⟨r.codomain, List.mem_append_left _ (List.mem_map_of_mem hr), r.codomain_has h⟩

theorem isImage_of_mem_expansion {n : Nat} {image : List Nat}
    (h : expansions.lookup n = some image) {m : Nat} (hm : m ∈ image) : IsImage m := by
  obtain ⟨l₁, l₂, hmem, -⟩ := List.lookup_eq_some_iff.1 h
  have hentry : (n, image) ∈ expansions := by simp [hmem]
  exact ⟨.point m, List.mem_append_right _ (List.mem_flatMap.2 ⟨_, hentry, List.mem_map_of_mem hm⟩),
    Progression.has_point_iff.2 rfl⟩

/-- A number that is in none of the domains is one that the mapping does not list. -/
theorem not_domain_iff {n : Nat} :
    (∀ q ∈ domains, ¬ q.Has n) ↔
      expansions.lookup n = none ∧ runs.findSome? (·.image? n) = none := by
  unfold domains
  simp only [List.forall_mem_append, List.forall_mem_map, List.lookup_eq_none_iff, bne_iff_ne,
    List.findSome?_eq_none_iff, Run.image?_eq_none_iff, Progression.has_point_iff]
  exact and_comm

end Upper

/-! ### Texts -/

/-- A code point becomes images of letters, or it is in none of the domains and stays. -/
theorem upperPoint_cases (c : CodePoint) :
    (∀ d ∈ upperPoint c, Upper.IsImage d.val) ∨
      (∀ q ∈ Upper.domains, ¬ q.Has c.val) ∧ upperPoint c = [c] := by
  unfold upperPoint
  split
  · next image himage =>
    refine .inl fun d hd => ?_
    obtain ⟨n, hn, rfl⟩ := List.mem_map.1 hd
    have hisImage := Upper.isImage_of_mem_expansion himage hn
    rw [CodePoint.val_ofNat hisImage.bounds.2]
    exact hisImage
  · next hexpansions =>
    split
    · next m hm =>
      refine .inl fun d hd => ?_
      obtain ⟨r, hr, himage⟩ := List.exists_of_findSome?_eq_some hm
      have hisImage := Upper.Run.isImage hr himage
      rw [List.mem_singleton.1 hd, CodePoint.val_ofNat hisImage.bounds.2]
      exact hisImage
    · next hruns => exact .inr ⟨Upper.not_domain_iff.2 ⟨hexpansions, hruns⟩, rfl⟩

theorem upperPoint_of_not_domain {c : CodePoint} (h : ∀ q ∈ Upper.domains, ¬ q.Has c.val) :
    upperPoint c = [c] := by
  obtain ⟨hexpansions, hruns⟩ := Upper.not_domain_iff.1 h
  unfold upperPoint
  rw [hexpansions, hruns]

/-- No code point of upper case changes again. -/
theorem upperPoint_of_mem_upper {s : Text} {c : CodePoint} (h : c ∈ upper s) :
    upperPoint c = [c] := by
  obtain ⟨d, -, hc⟩ := List.mem_flatMap.1 h
  rcases upperPoint_cases d with himages | ⟨hdomains, hd⟩
  · exact upperPoint_of_not_domain (himages c hc).not_domain
  · rw [hd] at hc
    rw [List.mem_singleton.1 hc, hd]

/-- Upper case is its own upper case. -/
theorem upper_upper (s : Text) : upper (upper s) = upper s := by
  calc upper (upper s) = (upper s).flatMap fun c => [c] :=
        List.flatMap_congr fun c hc => upperPoint_of_mem_upper hc
    _ = upper s := List.flatMap_singleton' _

/-- Upper-casing produces images of letters only. -/
theorem mem_upper_of_not_isImage {s : Text} {c : CodePoint} (hc : ¬ Upper.IsImage c.val)
    (h : c ∈ upper s) : c ∈ s := by
  obtain ⟨d, hd, hcd⟩ := List.mem_flatMap.1 h
  rcases upperPoint_cases d with himages | ⟨-, hstays⟩
  · exact absurd (himages c hcd) hc
  · rw [hstays] at hcd
    exact List.mem_singleton.1 hcd ▸ hd

theorem mem_upper_of_lt {s : Text} {c : CodePoint} (hc : c.val < 0x41) (h : c ∈ upper s) : c ∈ s :=
  mem_upper_of_not_isImage (fun himage => by have := himage.bounds; omega) h

theorem Avoids.upper {marks : List CodePoint} (hmarks : ∀ c ∈ marks, c.val < 0x41) {s : Text}
    (h : Avoids marks s) : Avoids marks (upper s) :=
  fun c hc hmark => h c (mem_upper_of_lt (hmarks c hmark) hc) hmark

end LootTables.Text

namespace LootTables

/-- The constant of an item has no punctuation that the name of the item has not. -/
theorem avoids_itemConstant {marks : List CodePoint} (hmarks : ∀ c ∈ marks, c.val < 0x41)
    {name : Text} (h : name.Avoids marks) (itemNamespace : Text) :
    (itemConstant itemNamespace name).Avoids marks := by
  unfold itemConstant
  apply Text.Avoids.upper hmarks
  cases hdrop : Text.dropStart? (itemNamespace ++ ":") name with
  | none => exact h
  | some rest =>
    have hname := List.isPrefixOf?_eq_some_iff_append_eq.1 hdrop
    exact h.subset fun c hc => hname ▸ List.mem_append_right _ hc

end LootTables
