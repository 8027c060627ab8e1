import MiniScheme.Interpret
import MiniScheme.Proofs.Run.Ends

/-! Sessions: the stores that calls of the interpreter lead to, with the global environments that a
host has made by then. -/

namespace MiniScheme

/-- A call may end in any way, and between two calls the host may do with the console as it
likes. -/
inductive Session : List Address → Store → Prop
  | start (console : Console) : Session [] { console := console }
  | newGlobal {envs : List Address} {s : Store} (h : Session envs s) :
      Session (s.fresh :: envs) (Run.after Run.newGlobal s)
  | interpret {envs : List Address} {s : Store} (h : Session envs s) (limit : Nat)
      (source : String) {env : Option Address} (henv : ∀ a ∈ env, a ∈ envs) :
      Session envs (Run.after (interpret limit source env) s)
  | console {envs : List Address} {s : Store} (h : Session envs s) (console : Console) :
      Session envs { s with console := console }

end MiniScheme
