import Mathlib

/-!
# Records in memory

A `Layout` says how a value is stored to memory and loaded from it: little-endian numbers, arrays and C
structures, whose fields each start at the next multiple of their alignment. The bytes between the fields
keep what they held.
-/

/-- `store m a` overwrites the front of the memory `m`, and `load` reads only there. -/
structure Layout (α : Type) where
  size : Nat
  align : Nat
  align_pos : 0 < align
  store : List UInt8 → α → List UInt8
  load : List UInt8 → α
  length_store : ∀ m a, size ≤ m.length → (store m a).length = m.length
  load_store : ∀ m a, size ≤ m.length → load (store m a) = a
  load_take : ∀ m, load (m.take size) = load m

namespace Layout

variable {α β : Type}

/-! ### Numbers -/

def leBytes : Nat → Nat → List UInt8
  | 0, _ => []
  | n + 1, x => UInt8.ofNat x :: leBytes n (x / 256)

def leValue (bs : List UInt8) : Nat := bs.foldr (fun b acc => b.toNat + 256 * acc) 0

theorem length_leBytes (n x : Nat) : (leBytes n x).length = n := by
  induction n generalizing x with
  | zero => rfl
  | succ n ih => rw [leBytes, List.length_cons, ih]

theorem leValue_leBytes (n x : Nat) : leValue (leBytes n x) = x % 256 ^ n := by
  induction n generalizing x with
  | zero => rw [leBytes, Nat.pow_zero, Nat.mod_one]; rfl
  | succ n ih =>
    have hbyte : (UInt8.ofNat x).toNat = x % 256 := UInt8.toNat_ofNat'
    show (UInt8.ofNat x).toNat + 256 * leValue (leBytes n (x / 256)) = _
    rw [ih, hbyte, Nat.pow_succ', Nat.mod_mul]

/-- An unsigned number of `n` bytes, aligned to its size. -/
def num (n : Nat) (hn : 0 < n) (toNat : α → Nat) (ofNat : Nat → α) (hlt : ∀ a, toNat a < 256 ^ n)
    (hof : ∀ a, ofNat (toNat a) = a) : Layout α where
  size := n
  align := n
  align_pos := hn
  store m a := leBytes n (toNat a) ++ m.drop n
  load m := ofNat (leValue (m.take n))
  length_store m a h := by
    rw [List.length_append, length_leBytes, List.length_drop]
    omega
  load_store m a h := by
    have htake : (leBytes n (toNat a) ++ m.drop n).take n = leBytes n (toNat a) :=
      List.take_left' (length_leBytes n _)
    rw [htake, leValue_leBytes, Nat.mod_eq_of_lt (hlt a), hof]
  load_take m := by rw [List.take_take, Nat.min_self]

def u8 : Layout UInt8 := num 1 Nat.one_pos UInt8.toNat UInt8.ofNat UInt8.toNat_lt fun _ => UInt8.ofNat_toNat

def u16 : Layout UInt16 := num 2 Nat.two_pos UInt16.toNat UInt16.ofNat UInt16.toNat_lt fun _ => UInt16.ofNat_toNat

def u32 : Layout UInt32 := num 4 (Nat.zero_lt_succ 3) UInt32.toNat UInt32.ofNat UInt32.toNat_lt fun _ => UInt32.ofNat_toNat

def u64 : Layout UInt64 := num 8 (Nat.zero_lt_succ 7) UInt64.toNat UInt64.ofNat UInt64.toNat_lt fun _ => UInt64.ofNat_toNat

/-- The same bytes read as another type. -/
def as (l : Layout α) (read : α → β) (write : β → α) (h : ∀ b, read (write b) = b) : Layout β where
  size := l.size
  align := l.align
  align_pos := l.align_pos
  store m b := l.store m (write b)
  load m := read (l.load m)
  length_store m b := l.length_store m (write b)
  load_store m b hm := by rw [l.load_store m (write b) hm, h]
  load_take m := by rw [l.load_take]

def i32 : Layout Int32 := u32.as UInt32.toInt32 Int32.toUInt32 fun _ => rfl

/-! ### Arrays -/

def storeAll (l : Layout α) : List UInt8 → List α → List UInt8
  | m, [] => m
  | m, a :: as => (l.store m a).take l.size ++ storeAll l (m.drop l.size) as

def loadAll (l : Layout α) : Nat → List UInt8 → List α
  | 0, _ => []
  | n + 1, m => l.load m :: loadAll l n (m.drop l.size)

theorem length_storeAll (l : Layout α) {m : List UInt8} {as : List α} (h : as.length * l.size ≤ m.length) :
    (l.storeAll m as).length = m.length := by
  induction as generalizing m with
  | nil => rfl
  | cons a as ih =>
    rw [List.length_cons, Nat.succ_mul] at h
    have hstore := l.length_store m a (by omega)
    rw [storeAll, List.length_append, List.length_take, ih (by rw [List.length_drop]; omega), List.length_drop]
    omega

theorem length_loadAll (l : Layout α) (n : Nat) (m : List UInt8) : (l.loadAll n m).length = n := by
  induction n generalizing m with
  | zero => rfl
  | succ n ih => rw [loadAll, List.length_cons, ih]

theorem loadAll_storeAll (l : Layout α) {m : List UInt8} {as : List α} (h : as.length * l.size ≤ m.length) :
    l.loadAll as.length (l.storeAll m as) = as := by
  induction as generalizing m with
  | nil => rfl
  | cons a as ih =>
    rw [List.length_cons, Nat.succ_mul] at h
    have hstore := l.length_store m a (by omega)
    have hlen : ((l.store m a).take l.size).length = l.size := by
      rw [List.length_take]
      omega
    rw [storeAll, List.length_cons, loadAll, List.drop_left' hlen, ih (by rw [List.length_drop]; omega),
      ← l.load_take, List.take_left' hlen, l.load_take, l.load_store m a (by omega)]

theorem loadAll_take (l : Layout α) (n : Nat) (m : List UInt8) :
    l.loadAll n (m.take (n * l.size)) = l.loadAll n m := by
  induction n generalizing m with
  | zero => rfl
  | succ n ih =>
    have hhead : l.load (m.take ((n + 1) * l.size)) = l.load m := by
      rw [← l.load_take, List.take_take, Nat.min_eq_left (Nat.le_mul_of_pos_left _ n.succ_pos), l.load_take]
    rw [loadAll, loadAll, hhead, List.drop_take, Nat.succ_mul, Nat.add_sub_cancel, ih]

def array (n : Nat) (l : Layout α) : Layout (Vector α n) where
  size := n * l.size
  align := l.align
  align_pos := l.align_pos
  store m v := l.storeAll m v.toList
  load m := ⟨⟨l.loadAll n m⟩, length_loadAll l n m⟩
  length_store m v h := l.length_storeAll (by rwa [Vector.length_toList])
  load_store m v h := by
    have hall : l.loadAll v.toList.length (l.storeAll m v.toList) = v.toList :=
      l.loadAll_storeAll (by rwa [Vector.length_toList])
    rw [Vector.length_toList] at hall
    apply Vector.toList_inj.1
    exact hall
  load_take m := by
    apply Vector.toList_inj.1
    exact l.loadAll_take n m

/-! ### Structures -/

def roundUp (n align : Nat) : Nat := (n + align - 1) / align * align

theorem le_roundUp (n : Nat) {align : Nat} (h : 0 < align) : n ≤ roundUp n align := by
  have hmod := Nat.mod_lt (n + align - 1) h
  have hdiv := Nat.div_add_mod' (n + align - 1) align
  rw [roundUp]
  omega

def noFields : Layout Unit where
  size := 0
  align := 1
  align_pos := Nat.one_pos
  store m _ := m
  load _ := ()
  length_store _ _ _ := rfl
  load_store _ _ _ := rfl
  load_take _ := rfl

/-- The next field of a structure. -/
def field (l : Layout α) (f : Layout β) : Layout (α × β) where
  size := roundUp l.size f.align + f.size
  align := max l.align f.align
  align_pos := Nat.lt_of_lt_of_le l.align_pos (Nat.le_max_left _ _)
  store m x := (l.store m x.1).take (roundUp l.size f.align) ++
    f.store ((l.store m x.1).drop (roundUp l.size f.align)) x.2
  load m := (l.load m, f.load (m.drop (roundUp l.size f.align)))
  length_store m x h := by
    have hle := le_roundUp l.size f.align_pos
    have hstore := l.length_store m x.1 (by omega)
    rw [List.length_append, f.length_store _ _ (by rw [List.length_drop]; omega), ← List.length_append,
      List.take_append_drop, hstore]
  load_store m x h := by
    have hle := le_roundUp l.size f.align_pos
    have hstore := l.length_store m x.1 (by omega)
    have hlen : ((l.store m x.1).take (roundUp l.size f.align)).length = roundUp l.size f.align := by
      rw [List.length_take]
      omega
    refine Prod.ext ?_ ?_
    · dsimp only
      -- the fields before are in front of the padding
      rw [← l.load_take, List.take_append_of_le_length (by omega), List.take_take, Nat.min_eq_left hle,
        l.load_take, l.load_store m x.1 (by omega)]
    · dsimp only
      rw [List.drop_left' hlen, f.load_store _ _ (by rw [List.length_drop]; omega)]
  load_take m := by
    have hle := le_roundUp l.size f.align_pos
    refine Prod.ext ?_ ?_
    · dsimp only
      rw [← l.load_take, List.take_take, Nat.min_eq_left (by omega), l.load_take]
    · dsimp only
      rw [List.drop_take, Nat.add_sub_cancel_left, f.load_take]

/-- The end of a structure, which is as long as its place in an array. -/
def pad (l : Layout α) : Layout α where
  size := roundUp l.size l.align
  align := l.align
  align_pos := l.align_pos
  store := l.store
  load := l.load
  length_store m a h := l.length_store m a (Nat.le_trans (le_roundUp _ l.align_pos) h)
  load_store m a h := l.load_store m a (Nat.le_trans (le_roundUp _ l.align_pos) h)
  load_take m := by
    rw [← l.load_take, List.take_take, Nat.min_eq_left (le_roundUp _ l.align_pos), l.load_take]

/-! ### Records in a stream -/

/-- The value at the front of `bytes`, if there are enough of them. -/
def read? (l : Layout α) (bytes : List UInt8) : Option α := if bytes.length < l.size then none else some (l.load bytes)

theorem read?_of_length (l : Layout α) {bytes : List UInt8} (h : bytes.length = l.size) :
    l.read? bytes = some (l.load bytes) := if_neg (Nat.not_lt_of_le (Nat.le_of_eq h.symm))

end Layout
