import InfernoFpga.Lib.Run
import Mathlib.Data.Finset.Card
import Mathlib.Data.List.Count

/-!
# Drain — taking away by name, one at a time

Live things have names, and a name need not belong to one thing alone.  A request that names one
takes away a single live thing of that name, whichever it comes upon, and does nothing if there is
none.  So of every name there are as many left as there were, less the times it was named.
-/

namespace InfernoFpga
namespace Lib

variable {ι κ σ : Type*} [DecidableEq ι] [DecidableEq κ]

/-- From `live` to `live'` one thing named `k` has been taken away, if there was one. -/
def TakesOne (name : ι → κ) (k : κ) (live live' : Finset ι) : Prop :=
  (∃ x ∈ live, name x = k ∧ live' = live.erase x) ∨ (∀ x ∈ live, name x ≠ k) ∧ live' = live

/-- The live things of a name. -/
abbrev named (name : ι → κ) (live : Finset ι) (k : κ) : Finset ι := live.filter fun x => name x = k

section TakesOne

variable {name : ι → κ} {k : κ} {live live' : Finset ι}

/-- One thing less of that name, and as many of the others. -/
theorem TakesOne.card_named (h : TakesOne name k live live') (k' : κ) :
    (named name live' k').card = (named name live k').card - if k' = k then 1 else 0 := by
  rcases h with ⟨x, hx, hname, rfl⟩ | ⟨hnone, rfl⟩
  · have hfilter : named name (live.erase x) k' = (named name live k').erase x :=
      Finset.filter_erase ..
    rw [hfilter]
    split
    · rename_i heq
      exact Finset.card_erase_of_mem (Finset.mem_filter.2 ⟨hx, hname.trans heq.symm⟩)
    · rename_i hne
      rw [Finset.erase_eq_of_notMem, Nat.sub_zero]
      exact fun hmem => hne ((Finset.mem_filter.1 hmem).2.symm.trans hname)
  · split
    · rename_i heq
      have hempty : named name live' k' = ∅ :=
        Finset.filter_eq_empty_iff.2 fun x hx hx' => hnone x hx (hx'.trans heq)
      rw [hempty, Finset.card_empty]
    · rw [Nat.sub_zero]

end TakesOne

/-- As many of a name are left as there were, less the times it has been asked for. -/
theorem card_named_run (step : σ → κ → σ) (live : σ → Finset ι) (name : ι → κ) (Inv : σ → Prop)
    (hinv : ∀ s k, Inv s → Inv (step s k))
    (htakes : ∀ s k, Inv s → TakesOne name k (live s) (live (step s k))) (k : κ) :
    ∀ (ks : List κ) {s : σ}, Inv s →
      (named name (live (run step s ks)) k).card = (named name (live s) k).card - ks.count k
  | [], _, _ => (Nat.sub_zero _).symm
  | k' :: ks, s, hs => by
      have hrest := card_named_run step live name Inv hinv htakes k ks (hinv s k' hs)
      have hfirst := (htakes s k' hs).card_named k
      calc (named name (live (run step s (k' :: ks))) k).card
          = (named name (live (step s k')) k).card - ks.count k := hrest
        _ = (named name (live s) k).card - (if k = k' then 1 else 0) - ks.count k := by rw [hfirst]
        _ = (named name (live s) k).card - (k' :: ks).count k := by
            rw [Nat.sub_sub, List.count_cons, Nat.add_comm (ks.count k)]
            simp only [beq_iff_eq, @eq_comm κ k k']

end Lib
end InfernoFpga
