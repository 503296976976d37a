import Mathlib.Logic.Equiv.Defs
import Mathlib.Algebra.Order.Group.Nat
import Mathlib.Tactic.Ring

/-!
# Layout — how values lie in memory

A layout of a type is a fixed number of bytes such that every run of that many bytes is exactly
one value: nothing is lost by writing a value out, and no padding is left uninterpreted.  The
layout of a record is put together from those of its fields, in their order.
-/

namespace InfernoFpga
namespace Lib

variable {α β : Type*}

/-! ## Little-endian numbers -/

/-- The `w` low bytes of a number, the lowest first. -/
def lowBytes : Nat → Nat → List UInt8
  | 0, _ => []
  | w + 1, v => UInt8.ofNat v :: lowBytes w (v / 256)

/-- The number that lies in a run of bytes. -/
def lowValue (bs : List UInt8) : Nat :=
  bs.foldr (fun b v => b.toNat + 256 * v) 0

@[simp] theorem lowValue_nil : lowValue [] = 0 := rfl

@[simp] theorem lowValue_cons (b : UInt8) (bs : List UInt8) :
    lowValue (b :: bs) = b.toNat + 256 * lowValue bs := rfl

@[simp] theorem length_lowBytes : ∀ w v, (lowBytes w v).length = w
  | 0, _ => rfl
  | w + 1, v => by simp [lowBytes, length_lowBytes w]

theorem lowValue_lt : ∀ bs : List UInt8, lowValue bs < 256 ^ bs.length
  | [] => by simp
  | b :: bs => by
      have hrest := lowValue_lt bs
      have hb := b.toNat_lt
      simp only [lowValue_cons, List.length_cons, pow_succ]
      omega

theorem lowValue_lowBytes : ∀ w {v : Nat}, v < 256 ^ w → lowValue (lowBytes w v) = v
  | 0, v, h => by
      have hv : v = 0 := by simpa using h
      simp [lowBytes, hv]
  | w + 1, v, h => by
      have hrest : v / 256 < 256 ^ w := by
        apply Nat.div_lt_of_lt_mul
        rwa [pow_succ, mul_comm] at h
      simp only [lowBytes, lowValue_cons, lowValue_lowBytes w hrest, UInt8.toNat_ofNat']
      omega

theorem lowBytes_lowValue : ∀ bs : List UInt8, lowBytes bs.length (lowValue bs) = bs
  | [] => rfl
  | b :: bs => by
      have hb := b.toNat_lt
      have hlow : UInt8.ofNat (b.toNat + 256 * lowValue bs) = b := by
        apply UInt8.toNat_inj.1
        simp only [UInt8.toNat_ofNat']
        omega
      have hrest : (b.toNat + 256 * lowValue bs) / 256 = lowValue bs := by omega
      simp only [List.length_cons, lowValue_cons, lowBytes, hlow, hrest, lowBytes_lowValue bs]

/-! ## Layouts -/

/-- A type whose values are exactly the runs of `width` bytes. -/
structure Layout (α : Type*) where
  width : Nat
  put : α → List UInt8
  get : List UInt8 → α
  length_put : ∀ a, (put a).length = width
  get_put : ∀ a, get (put a) = a
  put_get : ∀ bs, bs.length = width → put (get bs) = bs

namespace Layout

attribute [simp] length_put get_put

theorem put_injective (L : Layout α) : Function.Injective L.put :=
  Function.LeftInverse.injective L.get_put

/-- Numbers of `w` bytes, the lowest byte first. -/
def number (w : Nat) (toNat : α → Nat) (ofNat : Nat → α) (hlt : ∀ a, toNat a < 256 ^ w)
    (hof : ∀ a, ofNat (toNat a) = a) (hto : ∀ v, v < 256 ^ w → toNat (ofNat v) = v) :
    Layout α where
  width := w
  put a := lowBytes w (toNat a)
  get bs := ofNat (lowValue bs)
  length_put a := length_lowBytes w (toNat a)
  get_put a := by rw [lowValue_lowBytes w (hlt a), hof]
  put_get bs h := by
    subst h
    rw [hto _ (lowValue_lt bs), lowBytes_lowValue]

def byte : Layout UInt8 :=
  number 1 UInt8.toNat UInt8.ofNat (fun a => a.toNat_lt) (fun _ => UInt8.ofNat_toNat)
    (fun v h => by simpa using h)

def uint16 : Layout UInt16 :=
  number 2 UInt16.toNat UInt16.ofNat (fun a => a.toNat_lt) (fun _ => UInt16.ofNat_toNat)
    (fun v h => by simpa using h)

def uint32 : Layout UInt32 :=
  number 4 UInt32.toNat UInt32.ofNat (fun a => a.toNat_lt) (fun _ => UInt32.ofNat_toNat)
    (fun v h => by simpa using h)

def uint64 : Layout UInt64 :=
  number 8 UInt64.toNat UInt64.ofNat (fun a => a.toNat_lt) (fun _ => UInt64.ofNat_toNat)
    (fun v h => by simpa using h)

/-- An array of bytes. -/
def bytes (n : Nat) : Layout (Vector UInt8 n) where
  width := n
  put v := v.toList
  get bs := if h : bs.length = n then ⟨bs.toArray, by simpa using h⟩ else Vector.replicate n 0
  length_put v := by simp
  get_put v := by
    rw [dif_pos (by simp)]
    apply Vector.toArray_inj.1
    simp [Vector.toList]
  put_get bs h := by
    rw [dif_pos h]
    simp [Vector.toList]

/-- Two fields, one after the other. -/
def seq (L : Layout α) (M : Layout β) : Layout (α × β) where
  width := L.width + M.width
  put p := L.put p.1 ++ M.put p.2
  get bs := (L.get (bs.take L.width), M.get (bs.drop L.width))
  length_put p := by simp
  get_put p := by
    have hlen : (L.put p.1).length = L.width := L.length_put p.1
    rw [List.take_left' hlen, List.drop_left' hlen, L.get_put, M.get_put]
  put_get bs h := by
    have hfirst := L.put_get (bs.take L.width) (by rw [List.length_take]; omega)
    have hsecond := M.put_get (bs.drop L.width) (by rw [List.length_drop]; omega)
    simp only [hfirst, hsecond, List.take_append_drop]

/-- The same bytes, read as a value of another type. -/
def iso (L : Layout α) (e : α ≃ β) : Layout β where
  width := L.width
  put b := L.put (e.symm b)
  get bs := e (L.get bs)
  length_put b := by simp
  get_put b := by simp
  put_get bs h := by simpa using L.put_get bs h

end Layout

/-! ## Checksums that see every single change -/

/-- A fold whose step loses neither the sum so far nor the byte tells apart two runs of bytes
that differ in one place. -/
theorem foldl_ne_of_change {step : β → α → β} (hsum : ∀ a, Function.Injective fun s => step s a)
    (hbyte : ∀ s, Function.Injective (step s)) {a a' : α} (ha : a ≠ a') (pre post : List α)
    (s : β) : (pre ++ a :: post).foldl step s ≠ (pre ++ a' :: post).foldl step s := by
  have hrest : ∀ (cs : List α) {t t' : β}, t ≠ t' → cs.foldl step t ≠ cs.foldl step t' := by
    intro cs
    induction cs with
    | nil => exact fun h => h
    | cons c cs ih => exact fun h => ih ((hsum c).ne h)
  simp only [List.foldl_append, List.foldl_cons]
  exact hrest post ((hbyte _).ne ha)

end Lib
end InfernoFpga
