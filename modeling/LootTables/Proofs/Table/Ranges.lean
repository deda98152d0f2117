import LootTables.Proofs.Number.LiteralValue
import LootTables.Proofs.Table.WellFormed
import LootTables.Table.Render

/-!
# Ranges stay ranges

The bounds of a range are rounded twice on the way to their literals, but never past each other: if the
lower bound is at most the upper one, then so are the numbers that their literals stand for
(`ranges_in_order`). Decoding does not compare the bounds, so the order is a hypothesis.
-/

namespace LootTables

-- A power is that of the natural numbers, also where a more general one is known.
attribute [local instance (high)] instPowNat

/-- Both numbers stand for something, the first for no more than the second. -/
def Number.IsAtMost (min max : Number) : Prop :=
  ∃ low high, min.value? = some low ∧ max.value? = some high ∧ low ≤ high

/-- The literals of two doubles that narrow to singles are in the order of the doubles. -/
theorem Binary.literal_le {x y : Binary binary64} {s t : Single} (h : x.value ≤ y.value)
    (hs : x.narrow? = some s) (ht : y.narrow? = some t) :
    ∃ p q : FixedPoint, (Number.double (.finite x)).literal = .ok p.text ∧
      (Number.double (.finite y)).literal = .ok q.text ∧ p.value ≤ q.value :=
  ⟨s.fixedPoint, t.fixedPoint, Number.literal_eq (toSingle_eq_ok_iff.2 ⟨x, rfl, hs⟩),
    Number.literal_eq (toSingle_eq_ok_iff.2 ⟨y, rfl, ht⟩), Single.fixedPoint_value_le hs ht h⟩

/-- The text shows the literals of both bounds, and the first stands for no more than the second. -/
def Text.ShowsRange (s : Text) (min max : Number) : Prop :=
  ∃ p q : FixedPoint, min.literal = .ok p.text ∧ max.literal = .ok q.text ∧
    s = p.text ++ ", " ++ q.text ∧ p.value ≤ q.value

theorem Number.IsBound.exists_single {n : Number} (h : n.IsBound) :
    ∃ (x : Binary binary64) (s : Single), n = .double (.finite x) ∧ x.narrow? = some s := by
  match n, h with
  | .double (.finite x), h =>
    obtain ⟨s, hs⟩ := Option.isSome_iff_exists.1 h
    exact ⟨x, s, rfl, hs⟩

theorem renderBounds_of_isAtMost {min max : Number} (hmin : min.IsBound) (hmax : max.IsBound)
    (h : min.IsAtMost max) : ∃ s, renderBounds min max = .ok s ∧ s.ShowsRange min max := by
  obtain ⟨x, s, rfl, hs⟩ := hmin.exists_single
  obtain ⟨y, t, rfl, ht⟩ := hmax.exists_single
  obtain ⟨low, high, hlow, hhigh, hle⟩ := h
  cases hlow
  cases hhigh
  obtain ⟨p, q, hp, hq, hpq⟩ := Binary.literal_le hle hs ht
  exact ⟨_, bind_eq_ok_iff.2 ⟨_, mapError_eq_ok_iff.2 hp, bind_eq_ok_iff.2
    ⟨_, mapError_eq_ok_iff.2 hq, rfl⟩⟩, p, q, hp, hq, rfl, hpq⟩

theorem Roll.render_uniform {rolls : Roll} {min max : Number} (h : rolls.IsWellFormed)
    (hrolls : rolls = .uniform min max) (hle : min.IsAtMost max) :
    ∃ s, rolls.render = .ok ("new UniformRoll(" ++ s ++ ")") ∧ s.ShowsRange min max := by
  subst hrolls
  obtain ⟨s, hs, hshows⟩ := renderBounds_of_isAtMost h.1 h.2 hle
  exact ⟨s, bind_eq_ok_iff.2 ⟨s, hs, rfl⟩, hshows⟩

theorem LootFunction.render_uniformCount {f : LootFunction} {min max : Number} (h : f.IsWellFormed)
    (hf : f = .uniformCount min max) (hle : min.IsAtMost max) :
    ∃ s, f.render = .ok (".apply(uniform(" ++ s ++ "))") ∧ s.ShowsRange min max := by
  subst hf
  obtain ⟨s, hs, hshows⟩ := renderBounds_of_isAtMost h.1 h.2 hle
  exact ⟨s, bind_eq_ok_iff.2 ⟨s, hs, rfl⟩, hshows⟩

/-- Of two doubles that narrow to singles, the literal of the smaller one stands for no more than that of
the larger one. So in each table that was decoded, the bounds of the rolls and of the counts are rendered
in the order that they have in the table. -/
theorem ranges_in_order :
    (∀ (x y : Binary binary64) (s t : Single), x.value ≤ y.value → (Double.finite x).toSingle = .ok s →
      (Double.finite y).toSingle = .ok t →
        ∃ p q : FixedPoint, (Number.double (.finite x)).literal = .ok p.text ∧
          (Number.double (.finite y)).literal = .ok q.text ∧ p.value ≤ q.value) ∧
      ∀ (v : Json) (name : Text) (t : LootTable), v.toTable name = .ok t → ∀ pool ∈ t.pools,
        (∀ min max, pool.rolls = .uniform min max → min.IsAtMost max →
          ∃ s, pool.rolls.render = .ok ("new UniformRoll(" ++ s ++ ")") ∧ s.ShowsRange min max) ∧
          ∀ item weight functions, Entry.item item weight functions ∈ pool.entries →
            ∀ f ∈ functions, ∀ min max, f = .uniformCount min max → min.IsAtMost max →
              ∃ s, f.render = .ok (".apply(uniform(" ++ s ++ "))") ∧ s.ShowsRange min max := by
  refine ⟨fun x y s t hle hs ht => ?_, fun v name t ht pool hpool => ?_⟩
  · obtain ⟨_, ⟨⟩, hs⟩ := toSingle_eq_ok_iff.1 hs
    obtain ⟨_, ⟨⟩, ht⟩ := toSingle_eq_ok_iff.1 ht
    exact Binary.literal_le hle hs ht
  · have htable : t.IsWellFormed := ((exists_toTable_iff t name).1 ⟨v, ht⟩).2
    have hwell := htable pool hpool
    exact ⟨fun _ _ => Roll.render_uniform hwell.rolls, fun _ _ _ hentry f hf _ _ =>
      LootFunction.render_uniformCount ((hwell.entries _ hentry).1 f hf)⟩

/-- The double of one quarter with a sign. -/
def quarter (negative : Bool) : Double := .finite ⟨negative, 2 ^ 52, -54, by decide⟩

/-- A pool with a range from minus one quarter to one quarter in both places. -/
def quartersPool : LootPool where
  rolls := .uniform (.double (quarter true)) (.double (quarter false))
  entries :=
    [.item "minecraft:apple" 1 [.uniformCount (.double (quarter true)) (.double (quarter false))]]

theorem quarter_isAtMost :
    (Number.double (quarter true)).IsAtMost (.double (quarter false)) :=
  ⟨_, _, rfl, rfl, by norm_num [Binary.value, Binary.magnitude]⟩

theorem quartersPool_in_order :
    (∃ p q : FixedPoint, (Number.double (quarter true)).literal = .ok p.text ∧
      (Number.double (quarter false)).literal = .ok q.text ∧ p.value ≤ q.value) ∧
    (∃ s, quartersPool.rolls.render = .ok ("new UniformRoll(" ++ s ++ ")") ∧
      s.ShowsRange (.double (quarter true)) (.double (quarter false))) ∧
    ∃ s, (LootFunction.uniformCount (.double (quarter true)) (.double (quarter false))).render =
      .ok (".apply(uniform(" ++ s ++ "))") ∧
      s.ShowsRange (.double (quarter true)) (.double (quarter false)) := by
  have hdecodes : (LootTable.mk "QUARTERS" [quartersPool]).toJson.toTable "QUARTERS" =
      .ok ⟨"QUARTERS", [quartersPool]⟩ := by decide +kernel
  obtain ⟨hrolls, hcounts⟩ := ranges_in_order.2 _ _ _ hdecodes quartersPool List.mem_cons_self
  refine ⟨?_, hrolls _ _ rfl quarter_isAtMost,
    hcounts _ _ _ List.mem_cons_self _ List.mem_cons_self _ _ rfl quarter_isAtMost⟩
  obtain ⟨_, _, ⟨⟩, ⟨⟩, hle⟩ := quarter_isAtMost
  exact ranges_in_order.1 _ _ ⟨true, 2 ^ 23, -25, by decide⟩ ⟨false, 2 ^ 23, -25, by decide⟩ hle
    (by decide +kernel) (by decide +kernel)

end LootTables
