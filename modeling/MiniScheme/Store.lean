import MiniScheme.Value

/-! The state of a session: frames of bindings, each with a link to the frame around it, and the
console. Frames are shared by address, so a later change is seen by whoever holds it. -/

namespace MiniScheme

structure Frame where
  bindings : List (String × Value)
  enclosing : Option Address

/-- What has been printed, and where further output goes: text waits in the buffer if
`buffersOutput`, and a panic is raised to the caller if `raisesPanics`; else it goes out at once. -/
structure Console where
  buffer : String := ""
  stdout : String := ""
  stderr : String := ""
  buffersOutput : Bool := true
  raisesPanics : Bool := true

structure Store where
  frames : Array Frame := #[]
  nextClosure : Nat := 0
  console : Console := {}

namespace Frame

def insert (name : String) (v : Value) : List (String × Value) → List (String × Value)
  | [] => [(name, v)]
  | (n, w) :: rest => if n = name then (n, v) :: rest else (n, w) :: insert name v rest

theorem lookup_insert (name other : String) (v : Value) (bs : List (String × Value)) :
    (insert name v bs).lookup other = if other = name then some v else bs.lookup other := by
  induction bs with
  | nil =>
    by_cases h : other = name
    · simp [insert, h]
    · simp [insert, List.lookup_cons, h, beq_false_of_ne h]
  | cons b bs ih =>
    obtain ⟨n, w⟩ := b
    unfold insert
    by_cases hn : n = name
    · subst hn
      by_cases h : other = n
      · simp [h]
      · simp [List.lookup_cons, h, beq_false_of_ne h]
    · rw [if_neg hn]
      by_cases h : other = n
      · subst h
        simp [hn]
      · simp [List.lookup_cons, beq_false_of_ne h, ih]

def get? (f : Frame) (name : String) : Option Value := f.bindings.lookup name

def set (f : Frame) (name : String) (v : Value) : Frame :=
  { f with bindings := insert name v f.bindings }

theorem get?_set (f : Frame) (name other : String) (v : Value) :
    (f.set name v).get? other = if other = name then some v else f.get? other :=
  lookup_insert name other v f.bindings

def ofArguments (params : List String) (args : List Value) (enclosing : Address) : Frame where
  bindings := (params.zip args).foldl (fun bs p => insert p.1 p.2 bs) []
  enclosing := some enclosing

end Frame

namespace Console

def print (c : Console) (text : String) : Console :=
  if c.buffersOutput then { c with buffer := c.buffer ++ text }
  else { c with stdout := c.stdout ++ text }

end Console

namespace Store

def chainUpTo (s : Store) : Nat → Address → List Address
  | 0, _ => []
  | n + 1, a =>
    match s.frames[a]? with
    | none => []
    | some f =>
      a :: match f.enclosing with
        | none => []
        | some b => chainUpTo s n b

/-- The chain from `a` outwards; a finite chain visits no frame twice, so it is no longer than
the store. -/
def chain (s : Store) (a : Address) : List Address := s.chainUpTo s.frames.size a

def local? (s : Store) (a : Address) (name : String) : Option Value :=
  (s.frames[a]?).bind (·.get? name)

def holder? (s : Store) (a : Address) (name : String) : Option Address :=
  (s.chain a).find? fun b => (s.local? b name).isSome

def lookup? (s : Store) (a : Address) (name : String) : Option Value :=
  (s.holder? a name).bind (s.local? · name)

def define (s : Store) (a : Address) (name : String) (v : Value) : Store :=
  { s with frames := s.frames.modify a (·.set name v) }

def assign (s : Store) (a : Address) (name : String) (v : Value) : Bool × Store :=
  match s.holder? a name with
  | some b => (true, s.define b name v)
  | none => (false, s)

theorem local?_define (s : Store) (a b : Address) (name other : String) (v : Value) :
    (s.define a name v).local? b other =
      if a = b ∧ other = name then (s.frames[b]?).map fun _ => v else s.local? b other := by
  unfold local? define
  rw [Array.getElem?_modify]
  by_cases hab : a = b
  · cases hf : s.frames[b]? with
    | none => simp [hab]
    | some f => simp [hab, Frame.get?_set]
  · simp [hab]

def alloc (s : Store) (f : Frame) : Store := { s with frames := s.frames.push f }

def fresh (s : Store) : Address := s.frames.size

def globalFrame (home : Address) : Frame where
  bindings := Primitive.globals.map fun op => (op.name, .primitive op home)
  enclosing := none

end Store

end MiniScheme
