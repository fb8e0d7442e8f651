import ApfsAccess.Library.Storage
import ApfsAccess.Library.ByteBuffer

/-!
# Lists of stores to a disk that can grow

`store` is a write that was carried out: the disk holds the values from the offset on, and
a store past the end makes the disk longer.  `storeAll` is a list of stores in order.

* `store_append` : two adjacent stores are one.
* `store_window` : reading a window, changing a part of it and storing the whole is the
  store of that part.
* `store_comm`, `storeAll_perm` : stores that do not meet may be made in any order.
* `storeAll_of_adjacent` : stores that follow one another without a gap are one store.
* `store_patch` : the same for a window in which several parts are changed in turn.
-/

namespace Storage
namespace Disk

open ByteBuffer

variable {α : Type*}

@[ext] theorem ext_byte {disk disk' : Disk α} (hsize : disk.sizeBytes = disk'.sizeBytes)
    (hbyte : ∀ x, disk.byte x = disk'.byte x) : disk = disk' := by
  cases disk
  cases disk'
  simp only at hsize hbyte
  rw [mk.injEq]
  exact ⟨hsize, funext hbyte⟩

/-- A store that was carried out. -/
def store (disk : Disk α) (offset : ℕ) (values : List α) : Disk α :=
  if values = [] then disk
  else { disk.write offset values with
    sizeBytes := max disk.sizeBytes (offset + values.length) }

@[simp] theorem store_nil (disk : Disk α) (offset : ℕ) : disk.store offset [] = disk := rfl

theorem byte_store (disk : Disk α) (offset : ℕ) (values : List α) (x : ℕ) :
    (disk.store offset values).byte x =
      if x < offset then disk.byte x else (values[x - offset]?).getD (disk.byte x) := by
  unfold store
  split
  · rename_i hnil
    subst hnil
    simp
  · rfl

theorem sizeBytes_store {disk : Disk α} {offset : ℕ} {values : List α} (h : values ≠ []) :
    (disk.store offset values).sizeBytes = max disk.sizeBytes (offset + values.length) := by
  unfold store
  rw [if_neg h]

theorem byte_store_of_apart {disk : Disk α} {offset x : ℕ} {values : List α}
    (h : x < offset ∨ offset + values.length ≤ x) :
    (disk.store offset values).byte x = disk.byte x := by
  rw [byte_store]
  split
  · rfl
  · rw [List.getElem?_eq_none (by omega)]
    rfl

theorem byte_store_of_mem (disk : Disk α) {offset x : ℕ} {values : List α} (hlow : offset ≤ x)
    (hhigh : x < offset + values.length) :
    some ((disk.store offset values).byte x) = values[x - offset]? := by
  rw [byte_store, if_neg (by omega), List.getElem?_eq_getElem (by omega)]
  rfl

/-- **Two adjacent stores are one.** -/
theorem store_append (disk : Disk α) (offset : ℕ) (front back : List α) :
    (disk.store offset front).store (offset + front.length) back =
      disk.store offset (front ++ back) := by
  by_cases hback : back = []
  · rw [hback, store_nil, List.append_nil]
  by_cases hfront : front = []
  · rw [hfront, store_nil, List.length_nil, Nat.add_zero, List.nil_append]
  have happend : front ++ back ≠ [] := List.append_ne_nil_of_left_ne_nil hfront back
  ext x
  · rw [sizeBytes_store hback, sizeBytes_store hfront, sizeBytes_store happend,
      List.length_append]
    omega
  · by_cases hlow : x < offset
    · rw [byte_store_of_apart (by omega), byte_store_of_apart (by omega),
        byte_store_of_apart (by omega)]
    · by_cases hmiddle : x < offset + front.length
      · rw [byte_store_of_apart (by omega), byte_store, byte_store, if_neg hlow, if_neg hlow,
          List.getElem?_append_left (by omega)]
      · rw [byte_store, if_neg hmiddle, byte_store_of_apart (by omega), byte_store, if_neg hlow,
          List.getElem?_append_right (by omega), Nat.sub_sub]

/-- **A window that is read, changed in one part and stored back is the store of that part.** -/
theorem store_window {disk : Disk α} {start size offset : ℕ} {values : List α}
    (hsize : start + size ≤ disk.sizeBytes) (hlow : start ≤ offset)
    (hhigh : offset + values.length ≤ start + size) (hvalues : values ≠ []) :
    disk.store start (splice (disk.contents start size) (offset - start) values) =
      disk.store offset values := by
  have hfits : offset - start + values.length ≤ (disk.contents start size).length := by
    rw [length_contents]
    omega
  have hlength : (splice (disk.contents start size) (offset - start) values).length = size := by
    rw [length_splice hfits, length_contents]
  have hpos : 0 < values.length := List.length_pos_of_ne_nil hvalues
  have hnonempty : splice (disk.contents start size) (offset - start) values ≠ [] := by
    intro hnil
    rw [hnil, List.length_nil] at hlength
    omega
  ext x
  · rw [sizeBytes_store hnonempty, sizeBytes_store hvalues, hlength]
    omega
  · rw [byte_store, byte_store, getElem?_splice hfits]
    by_cases hbefore : x < start
    · rw [if_pos hbefore, if_pos (by omega)]
    rw [if_neg hbefore]
    by_cases hinside : x < start + size
    · have hcell : (disk.contents start size)[x - start]? = some (disk.byte x) := by
        rw [getElem?_contents (by omega)]
        congr 2
        omega
      by_cases hbelow : x < offset
      · rw [if_pos (show x - start < offset - start by omega), hcell, if_pos hbelow]
        rfl
      · rw [if_neg (show ¬x - start < offset - start by omega), if_neg hbelow]
        by_cases hpart : x < offset + values.length
        · rw [if_pos (by omega), show x - start - (offset - start) = x - offset by omega]
        · rw [if_neg (by omega), hcell, List.getElem?_eq_none (by omega)]
          rfl
    · rw [if_neg (show ¬x - start < offset - start by omega), if_neg (by omega),
        if_neg (show ¬x < offset by omega),
        List.getElem?_eq_none (show (disk.contents start size).length ≤ x - start by
          rw [length_contents]; omega),
        List.getElem?_eq_none (show values.length ≤ x - offset by omega)]

/-- **Stores that do not meet commute.** -/
theorem store_comm {disk : Disk α} {offset offset' : ℕ} {values values' : List α}
    (h : Apart offset values.length offset' values'.length) :
    (disk.store offset values).store offset' values' =
      (disk.store offset' values').store offset values := by
  by_cases hvalues : values = []
  · rw [hvalues, store_nil, store_nil]
  by_cases hvalues' : values' = []
  · rw [hvalues', store_nil, store_nil]
  unfold Apart at h
  ext x
  · rw [sizeBytes_store hvalues', sizeBytes_store hvalues, sizeBytes_store hvalues,
      sizeBytes_store hvalues']
    omega
  · by_cases hfirst : offset ≤ x ∧ x < offset + values.length
    · rw [byte_store_of_apart (by omega)]
      rw [byte_store, byte_store, if_neg (by omega), if_neg (by omega),
        List.getElem?_eq_getElem (by omega)]
      rfl
    · have hright : ((disk.store offset' values').store offset values).byte x =
          (disk.store offset' values').byte x := byte_store_of_apart (by omega)
      have hinner : (disk.store offset values).byte x = disk.byte x :=
        byte_store_of_apart (by omega)
      rw [hright, byte_store, hinner, byte_store]

/-! ## Lists of stores -/

/-- A list of stores, first to last. -/
def storeAll (disk : Disk α) (stores : List (ℕ × List α)) : Disk α :=
  stores.foldl (fun disk entry => disk.store entry.1 entry.2) disk

@[simp] theorem storeAll_nil (disk : Disk α) : disk.storeAll [] = disk := rfl

@[simp] theorem storeAll_cons (disk : Disk α) (entry : ℕ × List α)
    (stores : List (ℕ × List α)) :
    disk.storeAll (entry :: stores) = (disk.store entry.1 entry.2).storeAll stores := rfl

theorem storeAll_append (disk : Disk α) (front back : List (ℕ × List α)) :
    disk.storeAll (front ++ back) = (disk.storeAll front).storeAll back :=
  List.foldl_append

/-- Two stores of a list do not meet. -/
def StoresApart (first second : ℕ × List α) : Prop :=
  Apart first.1 first.2.length second.1 second.2.length

theorem StoresApart.symm {first second : ℕ × List α} (h : StoresApart first second) :
    StoresApart second first := Apart.symm h

/-- **Stores that do not meet may be made in any order.** -/
theorem storeAll_perm {stores stores' : List (ℕ × List α)} (hperm : stores.Perm stores')
    (h : stores.Pairwise StoresApart) (disk : Disk α) :
    disk.storeAll stores = disk.storeAll stores' := by
  induction hperm generalizing disk with
  | nil => rfl
  | cons entry _ ih =>
    rw [storeAll_cons, storeAll_cons]
    exact ih (List.pairwise_cons.mp h).2 _
  | swap first second rest =>
    obtain ⟨hsecond, -⟩ := List.pairwise_cons.mp h
    simp only [storeAll_cons]
    rw [store_comm (hsecond first (by simp))]
  | trans hfirst _ ih ih' =>
    rw [ih h, ih' ((hfirst.pairwise_iff fun hab => StoresApart.symm hab).mp h)]

/-- One store of a list ends before the other starts. -/
def Precedes (first second : ℕ × List α) : Prop := first.1 + first.2.length ≤ second.1

theorem Precedes.storesApart {first second : ℕ × List α} (h : Precedes first second) :
    StoresApart first second := .inl h

/-- The stores follow one another without a gap, from an offset on. -/
def Adjacent : ℕ → List (ℕ × List α) → Prop
  | _, [] => True
  | start, entry :: rest => entry.1 = start ∧ Adjacent (start + entry.2.length) rest

theorem adjacent_append {front back : List (ℕ × List α)} {start : ℕ} (h : Adjacent start front)
    (h' : Adjacent (start + (front.flatMap Prod.snd).length) back) :
    Adjacent start (front ++ back) := by
  induction front generalizing start with
  | nil => exact h'
  | cons entry front ih =>
    refine ⟨h.1, ih h.2 ?_⟩
    rwa [List.flatMap_cons, List.length_append, ← Nat.add_assoc] at h'

/-- Stores that follow one another lie in the stretch they make up. -/
theorem Adjacent.mem {stores : List (ℕ × List α)} {start : ℕ} (h : Adjacent start stores)
    {entry : ℕ × List α} (hmem : entry ∈ stores) :
    start ≤ entry.1 ∧ entry.1 + entry.2.length ≤ start + (stores.flatMap Prod.snd).length := by
  induction stores generalizing start with
  | nil => cases hmem
  | cons first rest ih =>
    rw [List.flatMap_cons, List.length_append]
    rcases List.mem_cons.mp hmem with rfl | hrest
    · rw [h.1]
      omega
    · have := ih h.2 hrest
      omega

theorem Adjacent.pairwise {stores : List (ℕ × List α)} {start : ℕ} (h : Adjacent start stores) :
    stores.Pairwise Precedes := by
  induction stores generalizing start with
  | nil => exact List.Pairwise.nil
  | cons first rest ih =>
    refine List.pairwise_cons.mpr ⟨fun entry hmem => ?_, ih h.2⟩
    show first.1 + first.2.length ≤ entry.1
    rw [h.1]
    exact (h.2.mem hmem).1

/-- **Stores that follow one another are one.** -/
theorem storeAll_of_adjacent {stores : List (ℕ × List α)} {start : ℕ} (h : Adjacent start stores)
    (disk : Disk α) : disk.storeAll stores = disk.store start (stores.flatMap Prod.snd) := by
  induction stores generalizing start disk with
  | nil => rfl
  | cons entry rest ih =>
    rw [storeAll_cons, ih h.2, h.1, store_append, List.flatMap_cons]

/-! ## Windows changed in several parts -/

/-- Storing what a range holds changes nothing. -/
theorem store_contents_self {disk : Disk α} {start size : ℕ}
    (h : start + size ≤ disk.sizeBytes) : disk.store start (disk.contents start size) = disk := by
  by_cases hnil : disk.contents start size = []
  · rw [hnil, store_nil]
  ext x
  · rw [sizeBytes_store hnil, length_contents]
    omega
  · rw [byte_store]
    split
    · rfl
    · by_cases hx : x < start + size
      · rw [getElem?_contents (by omega), show start + (x - start) = x by omega]
        rfl
      · rw [List.getElem?_eq_none (by rw [length_contents]; omega)]
        rfl

/-- What was stored is what the range holds. -/
theorem contents_store_self (disk : Disk α) (offset : ℕ) (values : List α) :
    (disk.store offset values).contents offset values.length = values := by
  rw [contents_eq_iff]
  intro i hi
  have hmem := byte_store_of_mem disk (show offset ≤ offset + i by omega)
    (show offset + i < offset + values.length by omega)
  rw [hmem, Nat.add_sub_cancel_left]

/-- A second store over the same range replaces the first. -/
theorem store_store_of_length_eq (disk : Disk α) (offset : ℕ) {values values' : List α}
    (h : values.length = values'.length) :
    (disk.store offset values).store offset values' = disk.store offset values' := by
  by_cases hnil : values' = []
  · have hvalues : values = [] := by
      rw [hnil, List.length_nil] at h
      exact List.length_eq_zero_iff.mp h
    rw [hnil, hvalues, store_nil, store_nil]
  have hvalues : values ≠ [] := by
    intro hvalues
    rw [hvalues, List.length_nil] at h
    exact hnil (List.length_eq_zero_iff.mp h.symm)
  ext x
  · rw [sizeBytes_store hnil, sizeBytes_store hvalues, sizeBytes_store hnil, h]
    omega
  · by_cases hx : offset ≤ x ∧ x < offset + values'.length
    · have hsecond := byte_store_of_mem (disk.store offset values) hx.1 hx.2
      have honly := byte_store_of_mem disk hx.1 hx.2
      exact Option.some.inj (hsecond.trans honly.symm)
    · rw [byte_store_of_apart (by omega), byte_store_of_apart (by omega),
        byte_store_of_apart (by omega)]

/-- The window after several parts of it were changed in turn. -/
def patch (start : ℕ) (window : List α) (stores : List (ℕ × List α)) : List α :=
  stores.foldl (fun window entry => splice window (entry.1 - start) entry.2) window

/-- The parts of a window lie inside it. -/
def PartsOf (start size : ℕ) (stores : List (ℕ × List α)) : Prop :=
  ∀ entry ∈ stores, start ≤ entry.1 ∧ entry.1 + entry.2.length ≤ start + size ∧ entry.2 ≠ []

theorem length_patch {start : ℕ} {window : List α} {stores : List (ℕ × List α)}
    (h : PartsOf start window.length stores) : (patch start window stores).length = window.length := by
  induction stores generalizing window with
  | nil => rfl
  | cons entry stores ih =>
    obtain ⟨hentry, hstores⟩ := List.forall_mem_cons.mp h
    have hlength : (splice window (entry.1 - start) entry.2).length = window.length :=
      length_splice (by omega)
    show (patch start (splice window (entry.1 - start) entry.2) stores).length = window.length
    rw [ih (by rw [hlength]; exact hstores), hlength]

/-- **A window that is read, changed in several parts in turn and stored back is the list of the
stores of those parts.** -/
theorem store_patch {disk : Disk α} {start size : ℕ} {stores : List (ℕ × List α)}
    (hsize : start + size ≤ disk.sizeBytes) (h : PartsOf start size stores) :
    disk.store start (patch start (disk.contents start size) stores) = disk.storeAll stores := by
  induction stores using List.reverseRecOn with
  | nil => exact store_contents_self hsize
  | append_singleton stores entry ih =>
    have hparts : PartsOf start size stores := fun other hmem => h other (by simp [hmem])
    obtain ⟨hlow, hhigh, hne⟩ := h entry (by simp)
    have hpatch : (patch start (disk.contents start size) stores).length = size := by
      rw [length_patch (by rwa [length_contents]), length_contents]
    have hstep : patch start (disk.contents start size) (stores ++ [entry]) =
        splice (patch start (disk.contents start size) stores) (entry.1 - start) entry.2 :=
      List.foldl_append
    -- the disk after the earlier parts holds the patched window
    have hbefore := ih hparts
    have hcontents : (disk.storeAll stores).contents start size =
        patch start (disk.contents start size) stores := by
      have hself := contents_store_self disk start (patch start (disk.contents start size) stores)
      rwa [hpatch, hbefore] at hself
    have hgrown : start + size ≤ (disk.storeAll stores).sizeBytes := by
      rw [← hbefore, sizeBytes_store]
      · omega
      · intro hnil
        rw [hnil, List.length_nil] at hpatch
        have := List.length_pos_of_ne_nil hne
        omega
    have hwindow := store_window hgrown hlow hhigh hne
    have hsame : (patch start (disk.contents start size) stores).length =
        (splice (patch start (disk.contents start size) stores) (entry.1 - start)
          entry.2).length := by
      rw [length_splice (by rw [hpatch]; omega)]
    rw [hcontents, ← hbefore, store_store_of_length_eq disk start hsame] at hwindow
    rw [hstep, hwindow, hbefore, storeAll_append, storeAll_cons, storeAll_nil]

end Disk
end Storage
