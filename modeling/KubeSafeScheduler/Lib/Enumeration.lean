import Mathlib.Data.List.Perm.Basic

/-!
Enumeration orders.

A hash table lists its entries in an order that depends on its layout, and a
range over a map visits them in an order of the runtime's choosing. Code that
enumerates is modelled with the order as an argument, an `EnumOrder`, which
carries the proof that it only reorders; a result about such code then holds
whatever the order is.
-/

namespace KubeSafeScheduler

/-- An order in which the entries of a collection are listed. -/
structure EnumOrder where
  order : {α : Type} → List α → List α
  perm : ∀ {α : Type} (l : List α), (order l).Perm l

namespace EnumOrder

/-- The order in which the entries are stored. -/
def stored : EnumOrder := ⟨fun l => l, fun _ => List.Perm.refl _⟩

variable (o : EnumOrder) {α : Type}

@[simp] lemma mem_order {l : List α} {a : α} : a ∈ o.order l ↔ a ∈ l := (o.perm l).mem_iff

@[simp] lemma length_order (l : List α) : (o.order l).length = l.length := (o.perm l).length_eq

lemma nodup_order {l : List α} : (o.order l).Nodup ↔ l.Nodup := (o.perm l).nodup_iff

@[simp] lemma order_nil : o.order ([] : List α) = [] := (o.perm []).eq_nil

end EnumOrder

end KubeSafeScheduler
