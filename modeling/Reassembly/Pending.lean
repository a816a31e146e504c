import Reassembly.SeqNum

/-! Payloads that wait for their turn, one per start, kept in increasing order of the start
taken as a plain number. What a store holds is told by its look-up `get?`. -/
namespace Reassembly

structure Pending where
  entries : List (SeqNum × Bytes)
  increasing : entries.Pairwise (fun a b => a.1 < b.1)
  deriving DecidableEq, Repr

namespace Pending

def empty : Pending := ⟨[],.nil⟩

def size (p : Pending) : Nat := p.entries.length

def bytesIn : List (SeqNum × Bytes) → Nat
  | [] => 0
  | e::es => e.2.length+bytesIn es

def bytes (p : Pending) : Nat := bytesIn p.entries

def lookIn (key : SeqNum) : List (SeqNum × Bytes) → Option Bytes
  | [] => none
  | e::es => if key = e.1 then some e.2 else lookIn key es

def get? (p : Pending) (key : SeqNum) : Option Bytes := lookIn key p.entries

def contains (p : Pending) (key : SeqNum) : Bool := (p.get? key).isSome

def insertEntry (key : SeqNum) (payload : Bytes) : List (SeqNum × Bytes) → List (SeqNum × Bytes)
  | [] => [(key,payload)]
  | e::es =>
    if key < e.1 then (key,payload)::e::es
    else if key = e.1 then (key,payload)::es
    else e::insertEntry key payload es

theorem mem_insertEntry {key : SeqNum} {payload : Bytes} {x : SeqNum × Bytes} :
    ∀ {es : List (SeqNum × Bytes)}, x ∈ insertEntry key payload es → x = (key,payload) ∨ x ∈ es
  | [], h => by simpa [insertEntry] using h
  | e::es, h => by
    unfold insertEntry at h
    split at h
    · simpa using h
    · split at h
      · grind
      · rcases List.mem_cons.1 h with h | h
        · simp [h]
        · rcases mem_insertEntry h with h | h <;> simp [h]

theorem insertEntry_increasing {key : SeqNum} {payload : Bytes} :
    ∀ {es : List (SeqNum × Bytes)}, es.Pairwise (fun a b => a.1 < b.1) →
      (insertEntry key payload es).Pairwise (fun a b => a.1 < b.1)
  | [], _ => by simp [insertEntry]
  | e::es, h => by
    have ⟨he,hes⟩ := List.pairwise_cons.1 h
    unfold insertEntry
    split
    · rename_i hlt
      refine List.pairwise_cons.2 ⟨fun x hx => ?_,h⟩
      rcases List.mem_cons.1 hx with rfl | hx
      · exact hlt
      · exact UInt32.lt_trans hlt (he x hx)
    · split
      · rename_i heq
        exact List.pairwise_cons.2 ⟨fun x hx => heq ▸ he x hx,hes⟩
      · rename_i hlt hne
        refine List.pairwise_cons.2 ⟨fun x hx => ?_,insertEntry_increasing hes⟩
        rcases mem_insertEntry hx with rfl | hx
        · exact UInt32.lt_of_le_of_ne (UInt32.not_lt.1 hlt) (Ne.symm hne)
        · exact he x hx

theorem length_insertEntry_le (key : SeqNum) (payload : Bytes) (es : List (SeqNum × Bytes)) :
    (insertEntry key payload es).length ≤ es.length+1 := by
  induction es with
  | nil => simp [insertEntry]
  | cons e es ih =>
    unfold insertEntry
    split
    · simp
    · split <;> simp; omega

theorem lookIn_insertEntry (key k : SeqNum) (payload : Bytes) (es : List (SeqNum × Bytes)) :
    lookIn k (insertEntry key payload es) = if k = key then some payload else lookIn k es := by
  induction es with
  | nil => simp [insertEntry,lookIn]
  | cons e es ih => unfold insertEntry; grind [lookIn]

theorem lookIn_filter (key k : SeqNum) (es : List (SeqNum × Bytes)) :
    lookIn k (es.filter (·.1 ≠ key)) = if k = key then none else lookIn k es := by
  induction es with
  | nil => simp [lookIn]
  | cons e es ih => grind [lookIn]

theorem mem_of_lookIn {key : SeqNum} {payload : Bytes} {es : List (SeqNum × Bytes)}
    (h : lookIn key es = some payload) : (key,payload) ∈ es := by
  induction es with
  | nil => simp [lookIn] at h
  | cons e es ih => grind [lookIn]

theorem length_insertEntry_of_isSome {key : SeqNum} {es : List (SeqNum × Bytes)}
    (hp : es.Pairwise (fun a b => a.1 < b.1)) (h : (lookIn key es).isSome) (payload : Bytes) :
    (insertEntry key payload es).length = es.length := by
  induction es with
  | nil => simp [lookIn] at h
  | cons e es ih =>
    have ⟨he,hes⟩ := List.pairwise_cons.1 hp
    unfold insertEntry
    split
    · rename_i hlt
      have hne : key ≠ e.1 := fun heq => UInt32.lt_irrefl _ (heq ▸ hlt)
      obtain ⟨v,hv⟩ := Option.isSome_iff_exists.1 h
      have hm : (key,v) ∈ es := mem_of_lookIn (by simpa [lookIn,hne] using hv)
      exact absurd (UInt32.lt_trans hlt (he _ hm)) (UInt32.lt_irrefl _)
    · split
      · simp
      · rename_i hne
        simpa using ih hes (by simpa [lookIn,hne] using h)

/-- Holds `payload` at `key`, in place of whatever was there. -/
def insert (p : Pending) (key : SeqNum) (payload : Bytes) : Pending :=
  ⟨insertEntry key payload p.entries,insertEntry_increasing p.increasing⟩

def erase (p : Pending) (key : SeqNum) : Pending :=
  ⟨p.entries.filter (·.1 ≠ key),p.increasing.sublist List.filter_sublist⟩

/-- The first start at or after `origin`, going around the circle. -/
def firstFrom? (p : Pending) (origin : SeqNum) : Option SeqNum :=
  ((p.entries.find? (origin ≤ ·.1)).or p.entries.head?).map (·.1)

/-- The last start met on a turn around the circle that begins at `origin`. -/
def lastFrom? (p : Pending) (origin : SeqNum) : Option SeqNum :=
  ((p.entries.filter (·.1 < origin)).getLast?.or p.entries.getLast?).map (·.1)

@[simp] theorem size_empty : empty.size = 0 := rfl
@[simp] theorem bytes_empty : empty.bytes = 0 := rfl
@[simp] theorem get?_empty (key : SeqNum) : empty.get? key = none := rfl

@[simp] theorem get?_insert (p : Pending) (key k : SeqNum) (payload : Bytes) :
    (p.insert key payload).get? k = if k = key then some payload else p.get? k :=
  lookIn_insertEntry key k payload p.entries

@[simp] theorem get?_erase (p : Pending) (key k : SeqNum) :
    (p.erase key).get? k = if k = key then none else p.get? k :=
  lookIn_filter key k p.entries

theorem mem_of_get? {p : Pending} {key : SeqNum} {payload : Bytes} (h : p.get? key = some payload) :
    (key,payload) ∈ p.entries := mem_of_lookIn h

theorem size_insert_le (p : Pending) (key : SeqNum) (payload : Bytes) :
    (p.insert key payload).size ≤ p.size+1 := length_insertEntry_le key payload p.entries

theorem size_insert_of_contains {p : Pending} {key : SeqNum} (h : p.contains key = true)
    (payload : Bytes) : (p.insert key payload).size = p.size :=
  length_insertEntry_of_isSome p.increasing h payload

theorem size_erase_lt {p : Pending} {key : SeqNum} {payload : Bytes}
    (h : p.get? key = some payload) : (p.erase key).size < p.size :=
  List.length_filter_lt_length_iff_exists.2 ⟨_,mem_of_get? h,by simp⟩

end Pending
end Reassembly
