/-
The physical page allocator: `buddy_pmm.c`.

Pages are numbered as in the `pages` array. A free block of order `o` is
`2^o` pages whose index in their zone is a multiple of `2^o`; its first
page is on `free_list(o)`, has `PG_property` set and holds `o` in
`property`. Allocation takes the first block of the smallest order that
is not empty, splits it and gives the unused tail back; freeing cuts the
range into blocks and merges each with its buddy as long as the buddy's
page says that it is a free block of the same order.

# How the source's data is kept

An intrusive list is the list of its members, the first behind the head.
`list_del` unlinks a page from the list it is on. Of the flag word the
bits that are read stay: `PG_reserved`, `PG_property` and `PG_slab`. A
failed `assert` and a `panic` are `none`.
-/
import Mathlib.Data.Nat.Bitwise
import Mathlib.Logic.Function.Basic

namespace MipsUcore.Kern

open Function

def maxOrder : Nat := 10

def maxZoneNum : Nat := 10

/-- `struct Page`; `propertyFlag` is the bit `PG_property`, `property` the
field. -/
structure Page where
  ref : Int
  reserved : Bool
  propertyFlag : Bool
  slab : Bool
  property : Nat
  zoneNum : Nat
  deriving DecidableEq, Repr

/-- `p->flags = 0`. -/
def Page.clearFlags (p : Page) : Page :=
  { p with reserved := false, propertyFlag := false, slab := false }

/-- `p->flags = 0; set_page_ref(p, 0)`. -/
def Page.release (p : Page) : Page := { p.clearFlags with ref := 0 }

/-- The pages, the eleven free areas and the zones. -/
structure Buddy where
  page : Nat → Page
  npage : Nat
  freeList : Nat → List Nat
  nrFree : Nat → Nat
  memBase : Nat → Nat
  zoneNum : Nat

namespace Buddy

-- ===== updates of pages

/-- One page is changed. -/
def setPage (s : Buddy) (p : Nat) (f : Page → Page) : Buddy :=
  { s with page := update s.page p (f (s.page p)) }

/-- A loop over the pages from `base` to `base + n`. -/
def setPages (s : Buddy) (base n : Nat) (f : Page → Page) : Buddy :=
  { s with
    page := fun p =>
      if base ≤ p ∧ p < base + n then f (s.page p) else s.page p }

/-- A block becomes free: `property`, `PG_property`, `nr_free` and the
list. -/
def pushFree (s : Buddy) (order p : Nat) : Buddy :=
  let t := s.setPage p fun q =>
    { q with property := order, propertyFlag := true }
  { t with
    nrFree := update t.nrFree order (t.nrFree order + 1)
    freeList := update t.freeList order (p :: t.freeList order) }

/-- A block leaves its list; its page keeps `PG_property`. -/
def unlink (s : Buddy) (order p : Nat) : Buddy :=
  { s with
    nrFree := update s.nrFree order (s.nrFree order - 1)
    freeList := fun o => (s.freeList o).erase p }

def clearPageProperty (s : Buddy) (p : Nat) : Buddy :=
  s.setPage p fun q => { q with propertyFlag := false }

/-- A free block is taken off its list for good. -/
def removeFree (s : Buddy) (order p : Nat) : Buddy :=
  (s.unlink order p).clearPageProperty p

-- ----- what the updates leave

section Updates

variable (s : Buddy) (o p : Nat)

@[simp] theorem pushFree_page_self : (s.pushFree o p).page p
    = { s.page p with property := o, propertyFlag := true } :=
  update_self ..
@[simp] theorem pushFree_page_ne {q : Nat} (h : q ≠ p) :
    (s.pushFree o p).page q = s.page q := update_of_ne h _ _
@[simp] theorem pushFree_freeList_self :
    (s.pushFree o p).freeList o = p :: s.freeList o :=
  update_self ..
@[simp] theorem pushFree_freeList_ne {o' : Nat} (h : o' ≠ o) :
    (s.pushFree o p).freeList o' = s.freeList o' :=
  update_of_ne h _ _
theorem pushFree_nrFree : (s.pushFree o p).nrFree
    = update s.nrFree o (s.nrFree o + 1) := rfl

@[simp] theorem removeFree_page_self : (s.removeFree o p).page p
    = { s.page p with propertyFlag := false } := update_self ..
@[simp] theorem removeFree_page_ne {q : Nat} (h : q ≠ p) :
    (s.removeFree o p).page q = s.page q := update_of_ne h _ _
@[simp] theorem removeFree_freeList (o' : Nat) :
    (s.removeFree o p).freeList o' = (s.freeList o').erase p := rfl
theorem removeFree_nrFree : (s.removeFree o p).nrFree
    = update s.nrFree o (s.nrFree o - 1) := rfl

end Updates

-- ===== initialisation

/-- The loop of `page_init` that reserves every page. -/
def reserveAll (s : Buddy) : Buddy :=
  s.setPages 0 s.npage fun p => { p with reserved := true }

/-- `buddy_init`. -/
def init (s : Buddy) : Buddy :=
  { s with
    freeList := fun o => if o ≤ maxOrder then [] else s.freeList o
    nrFree := fun o => if o ≤ maxOrder then 0 else s.nrFree o }

/-- The inner loop of `buddy_init_memmap`: blocks of one order as long as
they fit; `fuel` counts the pages left. -/
def memmapOrder (order : Nat) : Nat → Buddy × Nat × Nat → Buddy × Nat × Nat
  | 0, st => st
  | fuel + 1, (s, p, n) =>
    if 2 ^ order ≤ n then
      memmapOrder order fuel (s.pushFree order p, p + 2 ^ order, n - 2 ^ order)
    else (s, p, n)

/-- The outer loop, from `order` down. -/
def memmapLoop : Nat → Buddy × Nat × Nat → Buddy
  | 0, (s, p, n) => (memmapOrder 0 n (s, p, n)).1
  | order + 1, (s, p, n) =>
    if n = 0 then s
    else memmapLoop order (memmapOrder (order + 1) n (s, p, n))

/-- The first loop of `buddy_init_memmap` and the zone's entry. -/
def claimZone (s : Buddy) (base n : Nat) : Buddy :=
  let t := s.setPages base n fun p =>
    { p.release with property := 0, zoneNum := s.zoneNum }
  { t with
    memBase := update s.memBase s.zoneNum base
    zoneNum := s.zoneNum + 1 }

/-- `buddy_init_memmap`. -/
def initMemmap (s : Buddy) (base n : Nat) : Option Buddy :=
  if 0 < n ∧ s.zoneNum < maxZoneNum ∧
      ∀ i < n, (s.page (base + i)).reserved = true then
    some (memmapLoop maxOrder (s.claimZone base n, base, n))
  else none

-- ===== allocation

def getorder (n : Nat) : Option Nat :=
  (List.range (maxOrder + 1)).find? fun order => n ≤ 2 ^ order

/-- The splitting loop of `buddy_alloc_pages_sub`: the block at `page` has
order `order + d`, its upper halves become free down to `order`. -/
def split (page order : Nat) : Nat → Buddy → Buddy
  | 0, s => s
  | d + 1, s =>
    split page order d (s.pushFree (order + d) (page + 2 ^ (order + d)))

/-- `buddy_alloc_pages_sub`. -/
def allocPagesSub (s : Buddy) (order : Nat) : Option (Buddy × Option Nat) :=
  if order ≤ maxOrder then
    match (List.range' order (maxOrder + 1 - order)).find? fun o =>
        !(s.freeList o).isEmpty with
    | none => some (s, none)
    | some cur =>
      (s.freeList cur).head?.map fun page =>
        let t := split page order (cur - order) (s.unlink cur page)
        (t.clearPageProperty page, some page)
  else none

-- ===== freeing

def page2idx (s : Buddy) (p : Nat) : Nat := p - s.memBase (s.page p).zoneNum

def idx2page (s : Buddy) (zone idx : Nat) : Nat := s.memBase zone + idx

def pageIsBuddy (s : Buddy) (p order zone : Nat) : Bool :=
  decide (p < s.npage) && (s.page p).zoneNum == zone
    && !(s.page p).reserved && (s.page p).propertyFlag
    && (s.page p).property == order

/-- The merging loop of `buddy_free_pages_sub`, for the `fuel` orders up
to `MAX_ORDER`: the block at `idx` of order `order` joins its buddy. -/
def merge (zone : Nat) : Nat → Buddy → Nat → Nat → Buddy × Nat × Nat
  | 0, s, idx, order => (s, idx, order)
  | fuel + 1, s, idx, order =>
    let buddyIdx := idx ^^^ (1 <<< order)
    let buddy := s.idx2page zone buddyIdx
    if s.pageIsBuddy buddy order zone then
      merge zone fuel (s.removeFree order buddy) (idx &&& buddyIdx)
        (order + 1)
    else (s, idx, order)

/-- `buddy_free_pages_sub`. -/
def freePagesSub (s : Buddy) (base order : Nat) : Option Buddy :=
  let idx := s.page2idx base
  let zone := (s.page base).zoneNum
  if idx &&& (1 <<< order - 1) = 0 ∧ ∀ i < 1 <<< order,
      (s.page (base + i)).reserved = false ∧
        (s.page (base + i)).propertyFlag = false then
    let r := merge zone (maxOrder - order)
      (s.setPages base (1 <<< order) Page.release) idx order
    some (r.1.pushFree r.2.2 (r.1.idx2page zone r.2.1))
  else none

/-- The first loop of `buddy_free_pages`: a block for every set bit of the
index, from `order` up, as long as it fits; `fuel` are the orders the
assertion lets through. It stops with the first order that does not
fit. -/
def freeUp : Nat → Buddy → Nat → Nat → Nat →
    Option (Buddy × Nat × Nat × Nat)
  | 0, s, base, n, order =>
    if 1 <<< order ≤ n then none else some (s, base, n, order)
  | fuel + 1, s, base, n, order =>
    if 1 <<< order ≤ n then
      if s.page2idx base &&& (1 <<< order) ≠ 0 then
        (s.freePagesSub base order).bind fun t =>
          freeUp fuel t (base + 1 <<< order) (n - 1 <<< order) (order + 1)
      else freeUp fuel s base n (order + 1)
    else some (s, base, n, order)

/-- The loop `while (n < order_size)`. -/
def lowerOrder (n : Nat) : Nat → Nat
  | 0 => 0
  | order + 1 => if n < 1 <<< (order + 1) then lowerOrder n order else order + 1

/-- The second loop of `buddy_free_pages`: the largest blocks that still
fit; `fuel` counts the pages left. -/
def freeDown : Nat → Buddy → Nat → Nat → Nat → Option Buddy
  | 0, s, _, _, _ => some s
  | fuel + 1, s, base, n, order =>
    if n = 0 then some s
    else
      let o := lowerOrder n order
      (s.freePagesSub base o).bind fun t =>
        freeDown fuel t (base + 1 <<< o) (n - 1 <<< o) o

/-- `buddy_free_pages`. -/
def freePages (s : Buddy) (base n : Nat) : Option Buddy :=
  if n = 0 then none
  else if n = 1 then s.freePagesSub base 0
  else
    (freeUp (maxOrder + 1) s base n 0).bind fun r =>
      freeDown r.2.2.1 r.1 r.2.1 r.2.2.1 r.2.2.2

/-- `buddy_alloc_pages`. -/
def allocPages (s : Buddy) (n : Nat) : Option (Buddy × Option Nat) :=
  if n = 0 then none
  else
    (getorder n).bind fun order =>
      (s.allocPagesSub order).bind fun r =>
        r.2.elim (some r) fun page =>
          if n = 1 <<< order then some r
          else (r.1.freePages (page + n) (1 <<< order - n)).map fun t =>
            (t, some page)

/-- `buddy_nr_free_pages`. -/
def nrFreePages (s : Buddy) : Nat :=
  ((List.range (maxOrder + 1)).map fun o => s.nrFree o * 2 ^ o).sum

end Buddy

end MipsUcore.Kern
