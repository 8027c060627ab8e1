import MiniScheme.Store

/-! What a run may do to a store. Frames are added and never dropped, a frame keeps the link to the
frame around it and all its names, and the console keeps its channels. -/

namespace MiniScheme

structure Frame.Extends (f g : Frame) : Prop where
  enclosing : g.enclosing = f.enclosing
  bound : ∀ name, (f.get? name).isSome → (g.get? name).isSome

theorem Frame.extends_set (f : Frame) (name : String) (v : Value) : f.Extends (f.set name v) where
  enclosing := rfl
  bound other h := by
    rw [Frame.get?_set]
    split
    · rfl
    · exact h

namespace Store

structure Extends (s t : Store) : Prop where
  frames : ∀ (a : Address) (f : Frame), s.frames[a]? = some f →
    ∃ g, t.frames[a]? = some g ∧ f.Extends g
  nextClosure : s.nextClosure ≤ t.nextClosure
  raisesPanics : t.console.raisesPanics = s.console.raisesPanics
  buffersOutput : t.console.buffersOutput = s.console.buffersOutput

variable {s t u : Store}

theorem extends_of_frames_eq (hframes : t.frames = s.frames)
    (hclosure : s.nextClosure ≤ t.nextClosure)
    (hraises : t.console.raisesPanics = s.console.raisesPanics)
    (hbuffers : t.console.buffersOutput = s.console.buffersOutput) : s.Extends t where
  frames _ f hf := ⟨f, hframes ▸ hf, rfl, fun _ h => h⟩
  nextClosure := hclosure
  raisesPanics := hraises
  buffersOutput := hbuffers

theorem Extends.refl (s : Store) : s.Extends s := extends_of_frames_eq rfl (Nat.le_refl _) rfl rfl

theorem Extends.trans (h : s.Extends t) (h' : t.Extends u) : s.Extends u where
  frames a f hf := by
    obtain ⟨g, hg, hfg⟩ := h.frames a f hf
    obtain ⟨k, hk, hgk⟩ := h'.frames a g hg
    exact ⟨k, hk, hgk.enclosing.trans hfg.enclosing,
      fun name hb => hgk.bound name (hfg.bound name hb)⟩
  nextClosure := Nat.le_trans h.nextClosure h'.nextClosure
  raisesPanics := h'.raisesPanics.trans h.raisesPanics
  buffersOutput := h'.buffersOutput.trans h.buffersOutput

theorem extends_define (s : Store) (a : Address) (name : String) (v : Value) :
    s.Extends (s.define a name v) where
  frames b f hf := by
    rw [define, Array.getElem?_modify, hf]
    by_cases hab : a = b
    · exact ⟨f.set name v, if_pos hab, f.extends_set name v⟩
    · exact ⟨f, if_neg hab, rfl, fun _ h => h⟩
  nextClosure := Nat.le_refl _
  raisesPanics := rfl
  buffersOutput := rfl

theorem extends_assign (s : Store) (a : Address) (name : String) (v : Value) :
    s.Extends (s.assign a name v).2 := by
  unfold assign
  split
  · exact s.extends_define _ name v
  · exact .refl s

theorem extends_alloc (s : Store) (f : Frame) : s.Extends (s.alloc f) where
  frames a g hg := by
    obtain ⟨hlt, rfl⟩ := Array.getElem?_eq_some_iff.mp hg
    exact ⟨s.frames[a], Array.getElem?_push_lt hlt, rfl, fun _ h => h⟩
  nextClosure := Nat.le_refl _
  raisesPanics := rfl
  buffersOutput := rfl

theorem extends_print (s : Store) (text : String) :
    s.Extends { s with console := s.console.print text } := by
  refine extends_of_frames_eq rfl (Nat.le_refl _) ?_ ?_ <;>
  · simp only [Console.print]
    split <;> rfl

theorem extends_warn (s : Store) (text : String) :
    s.Extends { s with console.stderr := s.console.stderr ++ text ++ "\n" } :=
  extends_of_frames_eq rfl (Nat.le_refl _) rfl rfl

theorem extends_nextClosure (s : Store) : s.Extends { s with nextClosure := s.nextClosure + 1 } :=
  extends_of_frames_eq rfl (Nat.le_succ _) rfl rfl

end Store
end MiniScheme
