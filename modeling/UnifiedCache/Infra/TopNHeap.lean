import UnifiedCache.Lib.Machine
import Mathlib.Data.Multiset.Basic
import Mathlib.Algebra.Order.Ring.Nat

/-!
# The bounded heap

`TopNHeap<T, Compare>` of `shared/infra/template`: the values lie in `val_`, and `idx_` is a binary
heap of their places, `Top` being a value `cmp_` puts before all others. A full heap takes a new value
in the place of `Top` when `cmp_` puts `Top` before it.

`idx` are the first `size_` entries of `idx_`. `SizeType` and `IndexType` have 32 bits.

What the heap is for is stated over the multiset of the values it holds, as `BoundedStep`.
-/

namespace UnifiedCache.Infra

structure TopNHeap (α : Type*) where
  val : Array α
  idx : Array Nat
  capacity : Nat
deriving DecidableEq, Repr

namespace TopNHeap

variable {α : Type*} (cmp : α → α → Bool)

/-- A new heap. -/
def new (capacity : Nat) : TopNHeap α := ⟨#[], #[], capacity % UInt32.size⟩

/-- `cmp_(val_[idx_[i]], val_[idx_[j]])`. -/
def before (val : Array α) (idx : Array Nat) (i j : Nat) : Bool :=
  match idx[i]?.bind fun k => val[k]?, idx[j]?.bind fun k => val[k]? with
  | some a, some b => cmp a b
  | _, _ => false

/-- `SiftUp`, with at least `pos` turns of the loop left. -/
def siftUp (val : Array α) : Nat → Nat → Array Nat → Array Nat
  | 0, _, idx => idx
  | fuel + 1, pos, idx =>
    if pos = 0 then idx
    else if before cmp val idx pos ((pos - 1) / 2) then
      siftUp val fuel ((pos - 1) / 2) (idx.swapIfInBounds pos ((pos - 1) / 2))
    else idx

/-- `Left`. -/
def left (i : Nat) : Nat := (2 * i + 1) % UInt32.size

/-- `Right`. -/
def right (i : Nat) : Nat := (2 * i + 2) % UInt32.size

/-- `SiftDown`, with at most `fuel` turns of the loop. As many as there are entries are enough while
`Left` and `Right` do not wrap around. -/
def siftDown (val : Array α) : Nat → Nat → Array Nat → Array Nat
  | 0, _, idx => idx
  | fuel + 1, pos, idx =>
    let best := pos
    let best := if left pos < idx.size ∧ before cmp val idx (left pos) best then left pos else best
    let best := if right pos < idx.size ∧ before cmp val idx (right pos) best then right pos
      else best
    if best = pos then idx else siftDown val fuel best (idx.swapIfInBounds pos best)

/-- `Push`. -/
def push (h : TopNHeap α) (value : α) : TopNHeap α :=
  let size := h.idx.size
  if h.capacity = 0 then h
  else if size < h.capacity then
    let val := if size < h.val.size then h.val.setIfInBounds size value else h.val.push value
    { h with val := val, idx := siftUp cmp val size size (h.idx.push size) }
  else
    match h.idx[0]? with
    | none => h
    | some top =>
      match h.val[top]? with
      | none => h
      | some old =>
        if cmp old value then
          let val := h.val.setIfInBounds top value
          { h with val := val, idx := siftDown cmp val size 0 h.idx }
        else h

/-- `Top`. -/
def top (h : TopNHeap α) : Option α := h.idx[0]?.bind fun k => h.val[k]?

/-- `Pop`; `none` on an empty heap, where the source reads outside of `idx_`. -/
def pop (h : TopNHeap α) : Option (TopNHeap α) :=
  match h.idx.back? with
  | none => none
  | some last =>
    let idx := (h.idx.setIfInBounds 0 last).pop
    some { h with idx := if idx.size = 0 then idx else siftDown cmp h.val idx.size 0 idx }

/-- `Clear`: the values stay in `val_`. -/
def clear (h : TopNHeap α) : TopNHeap α := { h with idx := #[] }

/-- `n` times `Pop`. -/
def popN : Nat → TopNHeap α → Option (TopNHeap α)
  | 0, h => some h
  | n + 1, h => (h.pop cmp).bind (popN n)

/-- Takes all values out, one `Top` and `Pop` after the other. -/
def drain : Nat → TopNHeap α → List α
  | 0, _ => []
  | fuel + 1, h =>
    match h.top, h.pop cmp with
    | some v, some h' => v :: drain fuel h'
    | _, _ => []

end TopNHeap

/-! ## A heap in use -/

/-- The operations that change a heap. -/
inductive HeapOp (α : Type*) where
  | push (value : α)
  | pop
  | clear

namespace TopNHeap

variable {α : Type*} (cmp : α → α → Bool)

/-- One operation; `Pop` needs a heap that is not empty. -/
def step (h : TopNHeap α) : HeapOp α → Option (TopNHeap α)
  | .push value => some (h.push cmp value)
  | .pop => h.pop cmp
  | .clear => some h.clear

/-- All runs of a heap. -/
def heapMachine (capacity : Nat) : Lib.Machine (TopNHeap α) (HeapOp α) where
  init h := h = new capacity
  step := step cmp

/-- An operation does what it is for: a `Push` that adds a value does not find the slot of that number
in use, and no sift goes through 2 ^ 31 entries or more. -/
def Sound (h : TopNHeap α) : HeapOp α → Prop
  | .push _ => if h.idx.size < h.capacity then h.idx.size ∉ h.idx.toList else h.idx.size < 2 ^ 31
  | .pop => h.idx.size ≤ 2 ^ 31
  | .clear => True

instance (h : TopNHeap α) : (op : HeapOp α) → Decidable (h.Sound op)
  | .push _ => inferInstanceAs (Decidable
      (if h.idx.size < h.capacity then h.idx.size ∉ h.idx.toList else h.idx.size < 2 ^ 31))
  | .pop => inferInstanceAs (Decidable (h.idx.size ≤ 2 ^ 31))
  | .clear => inferInstanceAs (Decidable True)

/-- The values a heap holds. -/
def live (h : TopNHeap α) : List α := h.idx.toList.filterMap fun k => h.val[k]?

end TopNHeap

/-! ## The bounded multiset -/

variable {α : Type*}

/-- No value is before `e`. -/
def IsTop (cmp : α → α → Bool) (m : Multiset α) (e : α) : Prop :=
  e ∈ m ∧ ∀ x ∈ m, cmp x e = false

/-- The operations on a multiset of at most `capacity` values. Of several top elements `top` is the
one a heap would pop. -/
inductive BoundedStep (cmp : α → α → Bool) (capacity : Nat) (top : Option α) :
    Multiset α → HeapOp α → Multiset α → Prop where
  | add {m : Multiset α} {v : α} (h : m.card < capacity) :
      BoundedStep cmp capacity top m (.push v) (v ::ₘ m)
  | replace {m rest : Multiset α} {e v : α} (h : m.card = capacity) (htop : top = some e)
      (he : IsTop cmp m e) (hv : cmp e v = true) (hm : m = e ::ₘ rest) :
      BoundedStep cmp capacity top m (.push v) (v ::ₘ rest)
  | keep {m : Multiset α} {e v : α} (h : m.card = capacity) (htop : top = some e)
      (he : IsTop cmp m e) (hv : cmp e v = false) : BoundedStep cmp capacity top m (.push v) m
  /-- There is no room for any value. -/
  | noRoom {m : Multiset α} {v : α} (h : m.card = capacity) (h0 : capacity = 0) :
      BoundedStep cmp capacity top m (.push v) m
  | pop {m rest : Multiset α} {e : α} (htop : top = some e) (he : IsTop cmp m e)
      (hm : m = e ::ₘ rest) : BoundedStep cmp capacity top m .pop rest
  | clear {m : Multiset α} : BoundedStep cmp capacity top m .clear 0

end UnifiedCache.Infra
