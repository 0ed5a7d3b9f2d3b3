/-
The slab allocator: `kmalloc.c`.

Thirteen caches hand out objects of 32 bytes to 128 KB. A slab is
`2^page_order` pages of one cache; its control area is a `slab_t` and an
array `bufctl` with one entry for each object, either at the start of the
pages or, for the larger objects, in an object of another cache. The free
objects of a slab are chained by index through `bufctl`, from `free` to
`BUFCTL_END`. The two lists of a cache hold its slabs with and without a
free object; a slab whose last object is freed goes back to the page
allocator.

# How the source's data is kept

A slab is named by the address of its `slab_t`, and the control areas are
a map from these addresses: that nothing else writes to them is a result
about the model, not a property of the map. `page_link` of a slab's page
holds its cache and its slab (`pageCache`, `pageSlab`). Addresses are
numbers, as in the linear kernel segment.

`kmem_cache_alloc` and `kmem_cache_free` call themselves through the
control area of an off-slab cache, and `try_again` is a jump back; the
first argument bounds the depth, and `none` is a failed assertion, a panic
or a depth that does not suffice.
-/
import MipsUcore.Kern.Buddy

namespace MipsUcore.Kern

open Function

-- ===== configuration

def pgsize : Nat := 4096

def bufctlEnd : Nat := 0xFFFFFFFF

def slabLimit : Nat := 0xFFFFFFFE

/-- `sizeof(slab_t)`. -/
def sizeofSlab : Nat := 24

/-- `sizeof(kmem_bufctl_t)`. -/
def sizeofBufctl : Nat := 4

def minSizeOrder : Nat := 5

def maxSizeOrder : Nat := 17

def slabCacheNum : Nat := maxSizeOrder - minSizeOrder + 1

def kmallocMaxOrder : Nat := 10

def roundup2N (a n : Nat) : Nat := (a + 1 <<< n - 1) >>> n <<< n

/-- `slab_mgmt_size`; `ALIGN_SHIFT` is 4. -/
def slabMgmtSize (num : Nat) : Nat :=
  roundup2N (sizeofSlab + num * sizeofBufctl) 4

/-- The fields of `kmem_cache_t` that do not change after `slab_init`. -/
structure CacheConfig where
  objsize : Nat
  objsizeShift : Nat
  num : Nat
  offset : Nat
  offSlab : Bool
  pageOrder : Nat
  slabCachep : Nat
  deriving DecidableEq, Repr

/-- `__slab_div_table`: one row of four entries, the rest of it is 0. -/
def slabDivTable : List (List Nat) := [[113, 59, 30, 15, 0, 0, 0, 0]]

/-- The loop of `cache_estimate` that makes the objects fit. -/
def fitObjs (slabSize objsize : Nat) : Nat → Nat
  | 0 => 0
  | nr + 1 =>
    if slabSize < slabMgmtSize (nr + 1) + (nr + 1) * objsize then
      fitObjs slabSize objsize nr
    else nr + 1

/-- `cache_estimate`: the remainder and the number of objects; `none` is a
read outside the table. -/
def cacheEstimate (order objsizeShift : Nat) (offSlab : Bool) :
    Option (Nat × Nat) :=
  let slabSize := pgsize <<< order
  let objsize := 1 <<< objsizeShift
  if offSlab then
    let nr := min (slabSize >>> objsizeShift) slabLimit
    some (slabSize - nr * objsize, nr)
  else
    (slabDivTable[order]?.bind fun row => row[objsizeShift - 5]?).map fun nr =>
      let nr := min (fitObjs slabSize objsize nr) slabLimit
      (slabSize - nr * objsize - slabMgmtSize nr, nr)

/-- The loop of `calculate_slab_order` over the `fuel` orders from `order`
on: left-over bytes, objects and order; `none` is a panic. -/
def calculateSlabOrder (objsizeShift : Nat) (offSlab : Bool) :
    Nat → Nat → Option (Nat × Nat × Nat)
  | 0, _ => none
  | fuel + 1, order =>
    (cacheEstimate order objsizeShift offSlab).bind fun r =>
      let (remainder, num) := r
      if num = 0 then calculateSlabOrder objsizeShift offSlab fuel (order + 1)
      else if offSlab ∧
          (1 <<< objsizeShift - sizeofSlab) / sizeofBufctl < num then none
      else if remainder * 8 ≤ pgsize <<< order then
        some (remainder, num, order)
      else calculateSlabOrder objsizeShift offSlab fuel (order + 1)

/-- `getorder` of `kmalloc.c`. -/
def sizeOrder (n : Nat) : Option Nat :=
  (List.range' minSizeOrder slabCacheNum).find? fun order => n ≤ 1 <<< order

/-- `init_kmem_cache`; `slab_cachep` of an on-slab cache is not set. -/
def initKmemCache (objsize : Nat) : Option CacheConfig := do
  let objsize := roundup2N objsize 4
  let offSlab : Bool := decide (pgsize >>> 3 ≤ objsize)
  let objsizeShift ← sizeOrder objsize
  let (leftOver, num, pageOrder) ←
    calculateSlabOrder objsizeShift offSlab (kmallocMaxOrder + 1) 0
  let mgmtSize := slabMgmtSize num
  let offSlab := offSlab && decide (leftOver < mgmtSize)
  if num = 0 then none
  else if offSlab then
    let order ← sizeOrder mgmtSize
    some ⟨objsize, objsizeShift, num, 0, true, pageOrder, order - minSizeOrder⟩
  else some ⟨objsize, objsizeShift, num, mgmtSize, false, pageOrder, 0⟩

/-- The caches of `slab_init`. -/
def slabConfig (i : Nat) : Option CacheConfig :=
  initKmemCache (1 <<< (i + minSizeOrder))

-- ===== state

/-- A control area: `slab_t` and the `bufctl` array behind it. -/
structure Slab where
  sMem : Nat
  inuse : Nat
  offset : Nat
  free : Nat
  bufctl : Nat → Nat

/-- The caches, the control areas and the pages. -/
structure Kmem where
  pmm : Buddy
  config : Nat → CacheConfig
  slabsFull : Nat → List Nat
  slabsNotfull : Nat → List Nat
  slab : Nat → Slab
  pageCache : Nat → Nat
  pageSlab : Nat → Nat

namespace Kmem

def kernbase : Nat := 0x80000000

def page2kva (page : Nat) : Nat := kernbase + page * pgsize

def kva2page (npage kva : Nat) : Option Nat :=
  if kernbase ≤ kva ∧ (kva - kernbase) / pgsize < npage then
    some ((kva - kernbase) / pgsize)
  else none

/-- `list_del`: the slab leaves the list it is on. -/
def listDel (s : Kmem) (a : Nat) : Kmem :=
  { s with
    slabsFull := fun c => (s.slabsFull c).erase a
    slabsNotfull := fun c => (s.slabsNotfull c).erase a }

/-- `list_add(&(cachep->slabs_full), …)`. -/
def addFull (s : Kmem) (c a : Nat) : Kmem :=
  { s with slabsFull := update s.slabsFull c (a :: s.slabsFull c) }

/-- `list_add(&(cachep->slabs_notfull), …)`. -/
def addNotfull (s : Kmem) (c a : Nat) : Kmem :=
  { s with
    slabsNotfull := update s.slabsNotfull c (a :: s.slabsNotfull c) }

/-- A control area is rewritten. -/
def setSlab (s : Kmem) (a : Nat) (sl : Slab) : Kmem :=
  { s with slab := update s.slab a sl }

/-- `slab_init`; `none` is a panic in `init_kmem_cache`. -/
def slabInit (s : Kmem) : Option Kmem :=
  if ∀ i < slabCacheNum, (slabConfig i).isSome then
    some { s with
      config := fun i => (slabConfig i).getD ⟨0, 0, 0, 0, false, 0, 0⟩
      slabsFull := fun _ => []
      slabsNotfull := fun _ => [] }
  else none

-- ===== allocation

def kmemCacheAllocOne (s : Kmem) (c a : Nat) : Kmem × Nat :=
  let sl := s.slab a
  let next := sl.bufctl sl.free
  let t := s.setSlab a { sl with inuse := sl.inuse + 1, free := next }
  (if next = bufctlEnd then (t.listDel a).addFull c a else t,
    sl.sMem + sl.free * (s.config c).objsize)

/-- `kmem_cache_slabmgmt`; `alloc` is `kmem_cache_alloc`. -/
def kmemCacheSlabmgmt (alloc : Kmem → Nat → Option (Kmem × Option Nat))
    (s : Kmem) (c page : Nat) : Option (Kmem × Option Nat) :=
  let cfg := s.config c
  (if cfg.offSlab then alloc s cfg.slabCachep
    else some (s, some (page2kva page))).map fun r =>
      (r.2.elim r.1 fun a => r.1.setSlab a
        { r.1.slab a with
          inuse := 0, offset := cfg.offset
          sMem := page2kva page + cfg.offset }, r.2)

/-- The loop of `kmem_cache_grow` over the pages of the new slab. -/
def markPages (s : Kmem) (c a page n : Nat) : Kmem :=
  { s with
    pmm := s.pmm.setPages page n fun p => { p with slab := true }
    pageCache := fun q => if page ≤ q ∧ q < page + n then c else s.pageCache q
    pageSlab := fun q => if page ≤ q ∧ q < page + n then a else s.pageSlab q }

/-- The chain of a new slab: every object, in order. -/
def linkAll (s : Kmem) (a num : Nat) : Kmem :=
  let sl := s.slab a
  s.setSlab a
    { sl with
      free := 0
      bufctl := update
        (fun i => if i < num then i + 1 else sl.bufctl i) (num - 1)
        bufctlEnd }

def kmemCacheGrow (alloc : Kmem → Nat → Option (Kmem × Option Nat))
    (s : Kmem) (c : Nat) : Option (Kmem × Bool) :=
  let cfg := s.config c
  let size := 1 <<< cfg.pageOrder
  (s.pmm.allocPages size).bind fun r =>
    let s := { s with pmm := r.1 }
    r.2.elim (some (s, false)) fun page =>
      (kmemCacheSlabmgmt alloc s c page).bind fun m =>
        m.2.elim
          ((m.1.pmm.freePages page size).map fun pmm =>
            ({ m.1 with pmm := pmm }, false))
          fun a =>
            some (((m.1.markPages c a page size).linkAll a cfg.num).addNotfull
              c a, true)

/-- `kmem_cache_alloc`: a null result is `none` inside. -/
def kmemCacheAlloc : Nat → Kmem → Nat → Option (Kmem × Option Nat)
  | 0, _, _ => none
  | fuel + 1, s, c =>
    match s.slabsNotfull c with
    | a :: _ =>
      some ((s.kmemCacheAllocOne c a).1, some (s.kmemCacheAllocOne c a).2)
    | [] =>
      (kmemCacheGrow (kmemCacheAlloc fuel) s c).bind fun r =>
        if r.2 then kmemCacheAlloc fuel r.1 c else some (r.1, none)

/-- A call, the control area's call inside it, and one `try_again`. -/
def depth : Nat := 3

def kmalloc (s : Kmem) (size : Nat) : Option (Kmem × Option Nat) :=
  if size = 0 then none
  else (sizeOrder size).bind fun order =>
    kmemCacheAlloc depth s (order - minSizeOrder)

-- ===== freeing

/-- `kmem_slab_destroy`; `free` is `kmem_cache_free`. -/
def kmemSlabDestroy (free : Kmem → Nat → Nat → Option Kmem) (s : Kmem)
    (c a : Nat) : Option Kmem :=
  let cfg := s.config c
  let size := 1 <<< cfg.pageOrder
  (kva2page s.pmm.npage ((s.slab a).sMem - (s.slab a).offset)).bind fun page =>
    if ∀ i < size, (s.pmm.page (page + i)).slab = true then
      let pmm := s.pmm.setPages page size fun p => { p with slab := false }
      (pmm.freePages page size).bind fun pmm =>
        let t := { s with pmm := pmm }
        if cfg.offSlab then free t cfg.slabCachep a else some t
    else none

def kmemCacheFreeOne (free : Kmem → Nat → Nat → Option Kmem) (s : Kmem)
    (c a objp : Nat) : Option Kmem :=
  let sl := s.slab a
  let objnr := (objp - sl.sMem) >>> (s.config c).objsizeShift
  let inuse := sl.inuse - 1
  let t := s.setSlab a
    { sl with
      bufctl := update sl.bufctl objnr sl.free
      free := objnr
      inuse := inuse }
  if inuse = 0 then kmemSlabDestroy free (t.listDel a) c a
  else if inuse = (s.config c).num - 1 then
    some ((t.listDel a).addNotfull c a)
  else some t

def kmemCacheFree : Nat → Kmem → Nat → Nat → Option Kmem
  | 0, _, _, _ => none
  | fuel + 1, s, c, objp =>
    (kva2page s.pmm.npage objp).bind fun page =>
      if (s.pmm.page page).slab then
        kmemCacheFreeOne (kmemCacheFree fuel) s c (s.pageSlab page) objp
      else none

def kfree (s : Kmem) (objp : Nat) : Option Kmem :=
  (kva2page s.pmm.npage objp).bind fun page =>
    kmemCacheFree depth s (s.pageCache page) objp

end Kmem

end MipsUcore.Kern
