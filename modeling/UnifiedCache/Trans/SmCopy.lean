import UnifiedCache.Lib.Machine
import Mathlib.Logic.Function.Basic

/-!
# Copying with the GPU

`CudaSmStream` copies many buffers with one kernel: a grid of threads goes over all bytes in units, and
each thread takes the units at its distance. `CudaStream` hands each buffer to the driver. The memory is
one address space of bytes, and the threads take their instructions in any order.

An offset is a `size_t`. The buffers fit in the address space, so the offsets do not overflow.
-/

open Lib

namespace UnifiedCache.Trans

/-- `sizeof(uint4)`. -/
def vectorSize : Nat := 16

/-- `CUDA_TRANS_UNIT_SIZE`. -/
def unitSize : Nat := vectorSize * 2

/-- `CUDA_TRANS_BLOCK_NUMBER`. -/
def blockNumber : Nat := 32

/-- `CUDA_TRANS_BLOCK_SIZE`. -/
def blockSize : Nat := 256

/-- `CUDA_TRANS_THREAD_NUMBER`. -/
def threadNumber : Nat := blockNumber * blockSize

/-- The memory of the host and of the device. -/
abbrev Memory := Nat → UInt8

/-- The buffers of a copy: an array of pointers on both sides, or one buffer on one of them. -/
inductive Buffers where
  | arrayToArray (src dst : Nat → Nat)
  | arrayToBuffer (src : Nat → Nat) (dst : Nat)
  | bufferToArray (src : Nat) (dst : Nat → Nat)

/-! ## The plain stream -/

namespace CudaStream

/-- `cudaMemcpyAsync`, once its turn comes. -/
def memcpy (mem : Memory) (dst src size : Nat) : Memory := fun a =>
  if dst ≤ a ∧ a < dst + size then mem (src + (a - dst)) else mem a

/-- The address of source buffer `i`. -/
def srcOf (size i : Nat) : Buffers → Nat
  | .arrayToArray src _ => src i
  | .arrayToBuffer src _ => src i
  | .bufferToArray src _ => src + size * i

/-- The address of destination buffer `i`. -/
def dstOf (size i : Nat) : Buffers → Nat
  | .arrayToArray _ dst => dst i
  | .arrayToBuffer _ dst => dst + size * i
  | .bufferToArray _ dst => dst i

/-- The batched `DeviceToHostAsync` and `HostToDeviceAsync`, which a stream runs in order. -/
def copyAsync (buffers : Buffers) (size number : Nat) (mem : Memory) : Memory :=
  (List.range number).foldl
    (fun mem i => memcpy mem (dstOf size i buffers) (srcOf size i buffers) size) mem

end CudaStream

/-! ## The kernel -/

namespace CudaSmStream

/-- `host` of the three kernels: the address that the unit at an offset is read from. -/
def hostOf (size offset : Nat) : Buffers → Nat
  | .arrayToArray src _ => src (offset / size) + offset % size
  | .arrayToBuffer src _ => src (offset / size) + offset % size
  | .bufferToArray src _ => src + offset

/-- `device` of the three kernels: the address that the unit at an offset is written to. -/
def deviceOf (size offset : Nat) : Buffers → Nat
  | .arrayToArray _ dst => dst (offset / size) + offset % size
  | .arrayToBuffer _ dst => dst + offset
  | .bufferToArray _ dst => dst (offset / size) + offset % size

/-- The instructions of `CudaCopyUnit`. The test of the loop is made with the first of them. -/
inductive Instr where
  | loadLo
  | loadHi
  | storeLo
  | storeHi
deriving DecidableEq

/-- A thread in its loop. -/
structure Thread where
  offset : Nat
  next : Instr
  lo : List UInt8
  hi : List UInt8

/-- A vector that a thread reads or writes. -/
structure Access where
  thread : Nat
  write : Bool
  address : Nat

/-- The memory, the threads, and what has been accessed so far. -/
structure State where
  mem : Memory
  threads : Nat → Thread
  accesses : List Access

/-- `ld.global.v4`. An address that is not a multiple of the size of the vector is an error. -/
def load (s : State) (thread address : Nat) : Option (List UInt8 × List Access) :=
  if address % vectorSize = 0 then
    some ((List.range vectorSize).map fun j => s.mem (address + j),
      ⟨thread, false, address⟩ :: s.accesses)
  else none

/-- `st.global.v4`. -/
def store (s : State) (thread address : Nat) (vector : List UInt8) : Option (Memory × List Access) :=
  if address % vectorSize = 0 then
    some (fun a => if address ≤ a ∧ a < address + vectorSize then vector.getD (a - address) 0
      else s.mem a, ⟨thread, true, address⟩ :: s.accesses)
  else none

/-- The next instruction of `CudaCopyKernel` in a thread that has not left the loop. -/
def stepThread (buffers : Buffers) (size : Nat) (s : State) (i : Nat) : Option State := do
  let t := s.threads i
  match t.next with
  | .loadLo =>
    let (lo, accesses) ← load s i (hostOf size t.offset buffers)
    some ⟨s.mem, Function.update s.threads i { t with next := .loadHi, lo := lo }, accesses⟩
  | .loadHi =>
    let (hi, accesses) ← load s i (hostOf size t.offset buffers + vectorSize)
    some ⟨s.mem, Function.update s.threads i { t with next := .storeLo, hi := hi }, accesses⟩
  | .storeLo =>
    let (mem, accesses) ← store s i (deviceOf size t.offset buffers) t.lo
    some ⟨mem, Function.update s.threads i { t with next := .storeHi }, accesses⟩
  | .storeHi =>
    let (mem, accesses) ← store s i (deviceOf size t.offset buffers + vectorSize) t.hi
    let offset := t.offset + threadNumber * unitSize
    some ⟨mem, Function.update s.threads i { t with offset := offset, next := .loadLo }, accesses⟩

/-- `blockIdx.x * blockDim.x + threadIdx.x` is the number of a thread, which gives its first offset. -/
def start (mem : Memory) : State where
  mem := mem
  threads i := ⟨i * unitSize, .loadLo, [], []⟩
  accesses := []

/-- The kernel, started with a memory. An event is the thread that takes its next instruction. -/
def machine (buffers : Buffers) (size number : Nat) (mem : Memory) : Machine State Nat where
  init s := s = start mem
  step s i :=
    if i < threadNumber ∧ (s.threads i).offset + unitSize ≤ size * number then
      stepThread buffers size s i
    else none

/-- All threads have left the loop. -/
def Finished (size number : Nat) (s : State) : Prop :=
  ∀ i < threadNumber, size * number < (s.threads i).offset + unitSize

end CudaSmStream

end UnifiedCache.Trans
