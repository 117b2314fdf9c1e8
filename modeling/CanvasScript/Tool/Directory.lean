import CanvasScript.Tool.Outcome
/-!
A directory as a map from names to what stands under them.
-/
namespace CanvasScript

inductive Entry where
  | text (content : String)
  /-- A file whose bytes are no text. -/
  | binary (bytes : List UInt8)
  | directory
  deriving DecidableEq

namespace Entry

def read : Entry → Except ReadFault String
  | text content => .ok content
  | binary _ => .error .notText
  | directory => .error .directory

end Entry

structure Directory where
  entries : List (String × Entry)
  distinct : (entries.map Prod.fst).Nodup
  deriving DecidableEq

namespace Directory

def empty : Directory := ⟨[], .nil⟩

def get? (d : Directory) (name : String) : Option Entry := d.entries.lookup name

def remove (d : Directory) (name : String) : Directory where
  entries := d.entries.filter (·.1 ≠ name)
  distinct := (List.filter_sublist.map Prod.fst).nodup d.distinct

theorem not_mem_remove (d : Directory) (name : String) :
    name ∉ (d.remove name).entries.map Prod.fst := by
  simp [remove]

def put (d : Directory) (name : String) (entry : Entry) : Directory where
  entries := (name, entry) :: (d.remove name).entries
  distinct := List.nodup_cons.2 ⟨d.not_mem_remove name, (d.remove name).distinct⟩

/-- The name under which every directory holds the one above it. -/
def parentName : String := ".."

/-- The most bytes a name may have. -/
def nameLimit : Nat := 255

/-- What a name leads to, with the directory above among it. -/
def find? (d : Directory) (name : String) : Option Entry :=
  if name = parentName then some .directory else d.get? name

/-- The text under a name. -/
def read (d : Directory) (name : String) : Except ReadFault String :=
  match d.find? name with
  | none => .error .missing
  | some entry => entry.read

/-- Puts a text under a name, in place of a file that was there. -/
def write (d : Directory) (name content : String) : Except WriteFault Directory :=
  if name.utf8ByteSize > nameLimit then .error .nameTooLong
  else if d.find? name = some .directory then .error .directory
  else .ok (d.put name (.text content))

/-- All names, in the order of their characters. -/
def names (d : Directory) : List String :=
  (d.entries.map (·.1)).mergeSort fun a b => decide (a ≤ b)

theorem lookup_filter_ne (es : List (String × Entry)) (name other : String) (h : other ≠ name) :
    (es.filter (·.1 ≠ name)).lookup other = es.lookup other := by
  induction es with
  | nil => rfl
  | cons e es ih =>
      by_cases hk : e.1 = name
      · have : (other == e.1) = false := by simpa [hk] using h
        rw [List.filter_cons_of_neg (by simpa using hk), ih, List.lookup_cons, this]
      · rw [List.filter_cons_of_pos (by simpa using hk), List.lookup_cons, List.lookup_cons, ih]

theorem get?_put (d : Directory) (name other : String) (entry : Entry) :
    (d.put name entry).get? other = if other = name then some entry else d.get? other := by
  simp only [get?, put, remove, List.lookup_cons]
  by_cases h : other = name
  · simp [h]
  · simp only [beq_false_of_ne h, if_neg h]
    exact lookup_filter_ne d.entries name other h

end Directory

end CanvasScript
