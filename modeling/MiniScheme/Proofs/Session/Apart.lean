import MiniScheme.Proofs.Eval.Confined
import MiniScheme.Proofs.Eval.Rebase
import MiniScheme.Proofs.Session.Moments

/-! Sessions that share no frame. Each of them goes on as if it had the interpreter for itself. -/

namespace MiniScheme

open Correspondence

structure Linked (addr home : Address → Address → Prop) (identity : Nat → Nat → Prop)
    (c c' : Console) (mine : Address) (B : Address → Prop) (t u : Store) : Prop where
  addr_biUnique : Relator.BiUnique addr
  home_biUnique : Relator.BiUnique home
  identity_biUnique : Relator.BiUnique identity
  relates : (relabeling addr home identity c c').Relates t u
  mine : addr mine mine
  apart : ∀ b b', B b → ¬addr b b'

structure Apart (mine : Address) (B : Address → Prop) (t u : Store) : Prop where
  sound : t.Sound
  sound' : u.Sound
  lt_fresh : mine < t.fresh
  lt_fresh' : mine < u.fresh
  raisesPanics : u.console.raisesPanics = t.console.raisesPanics
  closed : t.Closed B
  exists_frame : ∀ b, B b → b < t.fresh
  linked : ∃ addr home identity, Linked addr home identity t.console u.console mine B t u

variable {addr home : Address → Address → Prop} {identity : Nat → Nat → Prop} {c c' : Console}
  {mine env : Address} {B B' : Address → Prop} {t t' u u' : Store} {limit : Nat} {source : String}

def Store.afterCall (s : Store) (limit : Nat) (env : Address) (source : String) : Store :=
  Run.after (interpret limit source (some env)) s

theorem Linked.resume (h : Linked addr home identity c c' mine B t u) (ht : t.Sound) (hu : u.Sound)
    (hmine : mine < t.fresh) (hmine' : mine < u.fresh) (hext : t.Extends t')
    (hframes : ∀ a b, addr a b → a < t.fresh → t'.frames[a]? = t.frames[a]?)
    (hB : ∀ b, B' b → b < t'.fresh ∧ (B b ∨ t.fresh ≤ b)) :
    ∃ addr' home' identity', Linked addr' home' identity' t'.console u.console mine B' t' u := by
  have hfresh : t.fresh ≤ t'.fresh := hext.fresh_le
  refine ⟨_, _, _, ?_, ?_, ?_, h.relates.resume ht hu hframes, .inl ⟨h.mine, hmine, hmine'⟩, ?_⟩
  · exact biUnique_resumed h.addr_biUnique hfresh (Nat.le_refl _)
  · exact biUnique_resumed h.home_biUnique hfresh (Nat.le_refl _)
  · exact biUnique_resumed h.identity_biUnique hext.nextClosure (Nat.le_refl _)
  · intro b b' hb
    obtain ⟨hlt, hold⟩ := hB b hb
    rintro (⟨hbb', hb, _⟩ | ⟨i, rfl, _⟩)
    · exact h.apart b b' (hold.resolve_right (Nat.not_le_of_lt hb)) hbb'
    · exact Nat.not_lt_of_le (Nat.le_add_right _ i) hlt

theorem sound_interpret (ht : t.Sound) (henv : env < t.fresh) (limit : Nat) (source : String) :
    t.Extends (t.afterCall limit env source) ∧ (t.afterCall limit env source).Sound := by
  have hkeeps : Invariant.sound.Keeps t (interpret limit source (some env)) _ _ :=
    Invariant.lawful_sound.keeps_interpret_some ht henv fun _ _ _ _ => trivial
  exact hkeeps.after

theorem confined_interpret {R : Address → Prop} (hR : t.Closed R) (henv : R env) (limit : Nat)
    (source : String) : t.Confined R (t.afterCall limit env source) := by
  have hkeeps : (Invariant.confined t R).Keeps t (interpret limit source (some env)) _ _ :=
    (Invariant.lawful_confined t R).keeps_interpret_some (Store.confined_self hR) (.inl henv)
      fun _ _ _ _ => trivial
  exact hkeeps.after.2

theorem Store.Confined.frames_eq_of_not {R : Address → Prop} {a : Address} (h : t.Confined R t')
    (ha : ¬R a) (hlt : a < t.fresh) : t'.frames[a]? = t.frames[a]? := by
  refine h.frames_eq a (not_or.mpr ⟨ha, fun hnew => ?_⟩)
  exact Nat.not_lt_of_le hnew.1 hlt

theorem Apart.interpret_mine (h : Apart mine B t u) (limit : Nat) (source : String) :
    Run.Alike (interpret limit source (some mine)) t (interpret limit source (some mine)) u ∧
      Apart mine B (t.afterCall limit mine source) (u.afterCall limit mine source) := by
  obtain ⟨addr, home, identity, hlinked⟩ := h.linked
  have hpairs : (relabeling addr home identity t.console u.console).Pairs t u
      (interpret limit source (some mine)) (interpret limit source (some mine)) _ Eq :=
    pairs_interpret hlinked.addr_biUnique hlinked.home_biUnique hlinked.identity_biUnique
      h.raisesPanics hlinked.relates hlinked.mine
  obtain ⟨hext, hsound⟩ := sound_interpret h.sound h.lt_fresh limit source
  obtain ⟨hext', hsound'⟩ := sound_interpret h.sound' h.lt_fresh' limit source
  have hconfined := confined_interpret (hlinked.relates.closed fun _ _ => trivial)
    ⟨mine, hlinked.mine⟩ limit source
  have hmine := Nat.lt_of_lt_of_le h.lt_fresh hext.fresh_le
  have hmine' := Nat.lt_of_lt_of_le h.lt_fresh' hext'.fresh_le
  have hexists : ∀ b, B b → b < (t.afterCall limit mine source).fresh :=
    fun b hb => Nat.lt_of_lt_of_le (h.exists_frame b hb) hext.fresh_le
  refine ⟨hpairs.alike, hsound, hsound', hmine, hmine', ?_, ?_, hexists, ?_⟩
  · rw [hext.raisesPanics, hext'.raisesPanics, h.raisesPanics]
  · refine h.closed.congr fun b hb => hconfined.frames_eq_of_not ?_ (h.exists_frame b hb)
    exact fun ⟨b', hbb'⟩ => hlinked.apart b b' hb hbb'
  · have hafter : Linked addr home identity t.console u.console mine B
        (t.afterCall limit mine source) (u.afterCall limit mine source) :=
      { hlinked with relates := hpairs.after }
    exact hafter.resume hsound hsound' hmine hmine' (.refl _) (fun _ _ _ _ => rfl)
      fun b hb => ⟨hexists b hb, .inl hb⟩

theorem Apart.interpret_other (h : Apart mine B t u) (henv : B env) (limit : Nat)
    (source : String) :
    (∀ a, t.Reaches mine a → (t.afterCall limit env source).frames[a]? = t.frames[a]?) ∧
      Apart mine (t.Grown B (t.afterCall limit env source)) (t.afterCall limit env source) u := by
  obtain ⟨addr, home, identity, hlinked⟩ := h.linked
  obtain ⟨hext, hsound⟩ := sound_interpret h.sound (h.exists_frame env henv) limit source
  have hconfined := confined_interpret h.closed henv limit source
  have hframes : ∀ a b, addr a b → a < t.fresh →
      (t.afterCall limit env source).frames[a]? = t.frames[a]? :=
    fun a b hab ha => hconfined.frames_eq_of_not (fun hB => hlinked.apart a b hB hab) ha
  have hgrown : ∀ b, t.Grown B (t.afterCall limit env source) b →
      b < (t.afterCall limit env source).fresh ∧ (B b ∨ t.fresh ≤ b) := by
    rintro b (hb | ⟨hle, hlt⟩)
    · exact ⟨Nat.lt_of_lt_of_le (h.exists_frame b hb) hext.fresh_le, .inl hb⟩
    · exact ⟨hlt, .inr hle⟩
  refine ⟨fun a ha => ?_, hsound, h.sound', Nat.lt_of_lt_of_le h.lt_fresh hext.fresh_le,
    h.lt_fresh', ?_, hconfined.closed, fun b hb => (hgrown b hb).1, ?_⟩
  · obtain ⟨b, hab⟩ := (hlinked.relates.closed fun _ _ => trivial).reaches ⟨mine, hlinked.mine⟩ ha
    exact hframes a b hab (h.sound.closed.reaches h.lt_fresh ha)
  · rw [hext.raisesPanics, h.raisesPanics]
  · exact hlinked.resume h.sound h.sound' h.lt_fresh h.lt_fresh' hext hframes hgrown

theorem biUnique_of_eq {R : Nat → Nat → Prop} (h : ∀ a b, R a b → a = b) :
    Relator.BiUnique R := by
  constructor
  · intro a b c hac hbc
    exact (h a c hac).trans (h b c hbc).symm
  · intro a b c hab hac
    exact (h a b hab).symm.trans (h a c hac)

theorem linked_self {s : Store} (hexists : ∀ b, B b → b < s.fresh)
    (hdisjoint : ∀ b, B b → ¬s.Reaches mine b) :
    Linked (fun a b => a = b ∧ (s.Reaches mine a ∨ s.fresh ≤ a)) Eq Eq s.console s.console mine B
      s s where
  addr_biUnique := biUnique_of_eq fun _ _ h => h.1
  home_biUnique := biUnique_of_eq fun _ _ h => h
  identity_biUnique := biUnique_of_eq fun _ _ h => h
  relates := by
    refine ⟨?_, fun _ => False.elim, fun i => ⟨rfl, .inr (Nat.le_add_right _ i)⟩, fun _ => rfl,
      ⟨"", "", s.console.extend_empty.symm, s.console.extend_empty.symm⟩⟩
    rintro a _ ⟨rfl, hreach | hle⟩
    · exact frames_self (s.closed_reaches mine) hreach fun b hb => ⟨rfl, .inl hb⟩
    · rw [Array.getElem?_eq_none hle]
      exact .none
  mine := ⟨rfl, .inl .refl⟩
  apart := by
    rintro b _ hb ⟨rfl, hreach | hle⟩
    · exact hdisjoint b hb hreach
    · exact Nat.not_lt_of_le hle (hexists b hb)

theorem apart_self {s : Store} (hs : s.Sound) (hmine : mine < s.fresh) (hB : s.Closed B)
    (hexists : ∀ b, B b → b < s.fresh) (hdisjoint : ∀ b, B b → ¬s.Reaches mine b) :
    Apart mine B s s where
  sound := hs
  sound' := hs
  lt_fresh := hmine
  lt_fresh' := hmine
  raisesPanics := rfl
  closed := hB
  exists_frame := hexists
  linked := ⟨_, _, _, linked_self hexists hdisjoint⟩

def Undisturbed (limit : Nat) (mine : Address) : List (Address × String) → Store → Store → Prop
  | [], _, _ => True
  | (env, source) :: calls, t, u =>
    if env = mine then
      Run.Alike (interpret limit source (some mine)) t (interpret limit source (some mine)) u ∧
        Undisturbed limit mine calls (t.afterCall limit mine source)
          (u.afterCall limit mine source)
    else
      (∀ a, t.Reaches mine a → (t.afterCall limit env source).frames[a]? = t.frames[a]?) ∧
        Undisturbed limit mine calls (t.afterCall limit env source) u

theorem Apart.undisturbed (h : Apart mine B t u) {calls : List (Address × String)}
    (hcalls : ∀ call ∈ calls, call.1 = mine ∨ B call.1) : Undisturbed limit mine calls t u := by
  induction calls generalizing B t u with
  | nil => trivial
  | cons call calls ih =>
    obtain ⟨env, source⟩ := call
    obtain ⟨hcall, hcalls⟩ := List.forall_mem_cons.mp hcalls
    unfold Undisturbed
    split
    · obtain ⟨halike, hafter⟩ := h.interpret_mine limit source
      exact ⟨halike, ih hafter hcalls⟩
    · rename_i hne
      obtain ⟨hframes, hafter⟩ := h.interpret_other (hcall.resolve_left hne) limit source
      refine ⟨hframes, ih hafter fun call hmem => ?_⟩
      exact (hcalls call hmem).imp_right .inl

theorem Invariant.ofSession_sound : Invariant.sound.OfSession where
  toLawful := lawful_sound
  start _ := ⟨nofun, nofun⟩
  newGlobal hs := ⟨hs.newGlobal, Store.fresh_lt_alloc _ _⟩
  console hs _ := hs.of_frames_eq rfl (Nat.le_refl _)
  env_console ha _ := ha
  all _ := trivial

theorem Session.sound {envs : List Address} {s : Store} (h : Session envs s) :
    s.Sound ∧ ∀ a ∈ envs, a < s.fresh := Invariant.ofSession_sound.session h

/-- A program writes no frame that its environment does not reach, and comes to reach none but those
that it makes; so calls in environments that reach no common frame do not disturb one another. -/
theorem writes_within_reach (limit : Nat) :
    (∀ (es : List Expr) (env : Address) (s : Store),
      Run.Ends (evalProgram limit es env) s
        (fun v t => s.Footprint env t ∧
          ∀ a, t.ReachesFrom v a → s.Reaches env a ∨ s.fresh ≤ a ∧ a < t.fresh)
        fun _ t => s.Footprint env t) ∧
      ∀ (mine : Address) (calls : List (Address × String)) (s : Store), s.Sound → mine < s.fresh →
        (∀ call ∈ calls, call.1 = mine ∨
          call.1 < s.fresh ∧ ∀ a, s.Reaches call.1 a → ¬s.Reaches mine a) →
        Undisturbed limit mine calls s s := by
  refine ⟨evalProgram_footprint limit, fun mine calls s hs hmine hcalls => ?_⟩
  -- all that the other calls reach at the beginning
  let B : Address → Prop := fun b => ∃ env, env < s.fresh ∧
    (∀ a, s.Reaches env a → ¬s.Reaches mine a) ∧ s.Reaches env b
  have hclosed : s.Closed B := fun a b ⟨env, henv, hdisjoint, hreach⟩ href =>
    ⟨env, henv, hdisjoint, hreach.tail href⟩
  have hexists : ∀ b, B b → b < s.fresh :=
    fun b ⟨_, henv, _, hreach⟩ => hs.closed.reaches henv hreach
  have happart : Apart mine B s s :=
    apart_self hs hmine hclosed hexists fun b ⟨_, _, hdisjoint, hreach⟩ => hdisjoint b hreach
  refine happart.undisturbed fun call hcall => (hcalls call hcall).imp_right ?_
  exact fun ⟨henv, hdisjoint⟩ => ⟨call.1, henv, hdisjoint, .refl⟩

theorem writes_within_reach_two_globals :
    let s := Run.after Run.newGlobal (Run.after Run.newGlobal {})
    s.Sound ∧ (∀ a, s.Reaches 1 a → ¬s.Reaches 0 a) ∧
      Undisturbed 50 0 [(0, "(define f car)"), (1, "(define f 1) (car f)"), (0, "(f 2)")] s s := by
  intro s
  have hsession : Session [1, 0] s := .newGlobal (.newGlobal (.start {}))
  obtain ⟨hs, henvs⟩ := hsession.sound
  have hdisjoint : ∀ a, s.Reaches 1 a → ¬s.Reaches 0 a := by
    intro a hone hzero
    have hone : a = 1 := (Store.closed_globalFrame rfl).reaches rfl hone
    have hzero : a = 0 := (Store.closed_globalFrame rfl).reaches rfl hzero
    exact Nat.one_ne_zero (hone.symm.trans hzero)
  have hmine : 0 < s.fresh := henvs 0 (by simp)
  refine ⟨hs, hdisjoint, (writes_within_reach 50).2 0 _ s hs hmine fun call hcall => ?_⟩
  have hcases : call.1 = 0 ∨ call.1 = 1 := by
    simp only [List.mem_cons, List.not_mem_nil, or_false] at hcall
    rcases hcall with rfl | rfl | rfl <;> simp
  rcases hcases with hcall | hcall
  · exact .inl hcall
  · exact .inr (hcall ▸ ⟨henvs 1 (by simp), hdisjoint⟩)

end MiniScheme
