import Mathlib.Logic.Relation
import Mathlib.Data.Set.Basic

/-!
# Sets of parties that wait for each other

A set is deadlocked when each of its members waits for a member.  Nothing is
assumed about how many parties there are or for how many each of them waits.

A wait for a party that itself does not wait belongs to no deadlocked set, and
a new wait closes one only when the party waited for already reaches the one
that starts to wait.
-/

namespace RCoreOS.Lib.WaitSets

open Relation

variable {τ : Type} {waits later : τ → τ → Prop} {members : Set τ}

/-- Each member waits for a member. -/
structure Deadlocked (waits : τ → τ → Prop) (members : Set τ) : Prop where
  nonempty : members.Nonempty
  waits : ∀ {party : τ}, party ∈ members → ∃ other ∈ members, waits party other

/-- New waits for parties that do not wait make no deadlocked set. -/
theorem Deadlocked.of_idle
    (idle :
      ∀ {party other : τ}, later party other →
        waits party other ∨ ∀ third, ¬ later other third)
    (deadlocked : Deadlocked later members) : Deadlocked waits members where
  nonempty := deadlocked.nonempty
  waits := by
    intro party member
    obtain ⟨other, otherMember, edge⟩ := deadlocked.waits member
    rcases idle edge with earlier | free
    · exact ⟨other, otherMember, earlier⟩
    · obtain ⟨third, _, out⟩ := deadlocked.waits otherMember
      exact absurd out (free third)

/--
One party starts to wait for another.  If that closes a deadlocked set and
there was none before, the other party already reached the first.
-/
theorem Deadlocked.reaches {source target : τ}
    (edge :
      ∀ {party other : τ}, later party other →
        waits party other ∨ party = source ∧ other = target)
    (none : ∀ earlier, ¬ Deadlocked waits earlier)
    (deadlocked : Deadlocked later members) :
    ReflTransGen waits target source := by
  by_contra apart
  by_cases closed : Deadlocked waits members
  · exact none members closed
  -- the part of the set that the target reaches is deadlocked without the edge
  have targetMember : target ∈ members := by
    by_contra outside
    refine closed ⟨deadlocked.nonempty, fun member => ?_⟩
    obtain ⟨other, otherMember, out⟩ := deadlocked.waits member
    rcases edge out with earlier | ⟨_, rfl⟩
    · exact ⟨other, otherMember, earlier⟩
    · exact absurd otherMember outside
  refine none { party | party ∈ members ∧ ReflTransGen waits target party }
    ⟨⟨target, targetMember, .refl⟩, ?_⟩
  rintro party ⟨member, reached⟩
  obtain ⟨other, otherMember, out⟩ := deadlocked.waits member
  rcases edge out with earlier | ⟨rfl, _⟩
  · exact ⟨other, ⟨otherMember, reached.tail earlier⟩, earlier⟩
  · exact absurd reached apart

end RCoreOS.Lib.WaitSets
