import StrategyDesk.Service.Backtest

/-!
This module contains a logic for programs. A program obeys a conduct if each of its requests is allowed
in view of what it has exchanged with its surroundings before, and if it ends as it should, whatever
is replied.
-/

namespace StrategyDesk

structure Exchange where
  request : Request
  reply : request.Reply

namespace Exchange

def committed? : Exchange → Option Strategy
  | ⟨.save s, .ok version⟩ => some (s.saved version).published
  | _ => none

def found? : Exchange → Option Strategy
  | ⟨.find _, .ok (some s)⟩ => some s
  | _ => none

def isDealing : Exchange → Bool
  | ⟨.find _, _⟩ | ⟨.save _, _⟩ => true
  | _ => false

def dealings (past : List Exchange) : List Exchange :=
  past.filter isDealing

def commits (past : List Exchange) : List Strategy :=
  past.filterMap committed?

def seen (past : List Exchange) : List Strategy :=
  past.filterMap found? ++ commits past

@[simp]
theorem dealings_append (past later : List Exchange) :
    dealings (past ++ later) = dealings past ++ dealings later := by
  simp [dealings]

@[simp]
theorem commits_append (past later : List Exchange) :
    commits (past ++ later) = commits past ++ commits later :=
  List.filterMap_append

theorem commits_append_ne_nil {past : List Exchange} (h : commits past ≠ [])
    (later : List Exchange) : commits (past ++ later) ≠ [] := by
  rw [commits_append]
  exact List.append_ne_nil_of_left_ne_nil h _

theorem filterMap_dealings {γ : Type} (f : Exchange → Option γ)
    (hf : ∀ e, e.isDealing = false → f e = none) (past : List Exchange) :
    (dealings past).filterMap f = past.filterMap f := by
  induction past with
  | nil => rfl
  | cons e past ih =>
    unfold dealings at ih ⊢
    rw [List.filter_cons]
    split
    . rw [List.filterMap_cons, List.filterMap_cons, ih]
    . next he =>
      rw [ih, List.filterMap_cons, hf e (by simpa using he)]

theorem committed?_eq_none {e : Exchange} (h : e.isDealing = false) : e.committed? = none := by
  rcases e with ⟨r, reply⟩
  cases r <;> first | rfl | simp [isDealing] at h

theorem found?_eq_none {e : Exchange} (h : e.isDealing = false) : e.found? = none := by
  rcases e with ⟨r, reply⟩
  cases r <;> first | rfl | simp [isDealing] at h

@[simp]
theorem commits_dealings (past : List Exchange) : commits (dealings past) = commits past :=
  filterMap_dealings committed? (fun _ => committed?_eq_none) past

@[simp]
theorem seen_dealings (past : List Exchange) : seen (dealings past) = seen past := by
  unfold seen
  rw [commits_dealings, filterMap_dealings found? (fun _ => found?_eq_none)]

end Exchange

/-- The replies of a store: a look-up does not fail, and brings up what was asked for. -/
def Request.Fits : (r : Request) → r.Reply → Prop
  | .find id, .ok (some s) => s.id = id
  | .find _, .error _ => False
  | _, _ => True

abbrev Conduct := List Exchange → Request → Prop

def Conduct.onSaves (may : List Exchange → Strategy → Prop) : Conduct
  | past, .save s => may (Exchange.dealings past) s
  | _, _ => True

namespace Program

variable {α β : Type}

/-- Whether each request is allowed, and the end is as it should be, after some exchanges. -/
def Obeys (conduct : Conduct) (ending : List Exchange → α → Prop) (past : List Exchange) :
    Program α → Prop
  | .done a => ending past a
  | .ask r next =>
    conduct past r ∧
      ∀ reply, r.Fits reply → (next reply).Obeys conduct ending (past ++ [⟨r, reply⟩])
  | .crash _ => True

theorem obeys_bind {conduct : Conduct} {ending : List Exchange → β → Prop} {past : List Exchange}
    {p : Program α} {f : α → Program β} :
    (p.bind f).Obeys conduct ending past ↔
      p.Obeys conduct (fun past a => (f a).Obeys conduct ending past) past := by
  induction p generalizing past with
  | done a => rfl
  | ask r next ih => simp only [bind, Obeys, ih]
  | crash fault => rfl

theorem Obeys.imp {conduct : Conduct} {ending ending' : List Exchange → α → Prop}
    (h : ∀ past a, ending past a → ending' past a) {past : List Exchange} {p : Program α}
    (hp : p.Obeys conduct ending past) : p.Obeys conduct ending' past := by
  induction p generalizing past with
  | done a => exact h past a hp
  | ask r next ih => exact ⟨hp.1, fun reply hreply => ih reply (hp.2 reply hreply)⟩
  | crash fault => trivial

theorem obeys_of_forall {conduct : Conduct} (h : ∀ past r, conduct past r) {past : List Exchange}
    (p : Program α) : p.Obeys conduct (fun _ _ => True) past := by
  induction p generalizing past with
  | done a => trivial
  | ask r next ih => exact ⟨h past r, fun reply _ => ih reply⟩
  | crash fault => trivial

end Program

namespace Service

variable {α β : Type}

def Obeys (conduct : Conduct) (good : List Exchange → α → Prop) (bad : List Exchange → Failure → Prop)
    (past : List Exchange) (x : Service α) : Prop :=
  Program.Obeys conduct
    (fun past r => match r with
      | .ok a => good past a
      | .error f => bad past f) past x.run

variable {conduct : Conduct} {good : List Exchange → α → Prop} {bad : List Exchange → Failure → Prop}
  {past : List Exchange}

@[simp]
theorem obeys_pure {a : α} : Obeys conduct good bad past (pure a) ↔ good past a :=
  Iff.rfl

@[simp]
theorem obeys_throw {f : Failure} :
    Obeys conduct good bad past (throw f : Service α) ↔ bad past f :=
  Iff.rfl

@[simp]
theorem obeys_bind {good : List Exchange → β → Prop} {x : Service α} {f : α → Service β} :
    Obeys conduct good bad past (x >>= f) ↔
      Obeys conduct (fun past a => Obeys conduct good bad past (f a)) bad past x := by
  unfold Obeys
  show Program.Obeys _ _ _ (x.run.bind (ExceptT.bindCont f)) ↔ _
  rw [Program.obeys_bind]
  apply iff_of_eq
  congr 1
  funext past r
  cases r <;> rfl

@[simp]
theorem obeys_map {good : List Exchange → β → Prop} {x : Service α} {f : α → β} :
    Obeys conduct good bad past (f <$> x) ↔ Obeys conduct (fun past a => good past (f a)) bad past x := by
  unfold Obeys
  show Program.Obeys _ _ _ (x.run.bind _) ↔ _
  rw [Program.obeys_bind]
  apply iff_of_eq
  congr 1
  funext past r
  cases r <;> rfl

@[simp]
theorem obeys_discard {good : List Exchange → Unit → Prop} {x : Service α} :
    Obeys conduct good bad past (discard x) ↔ Obeys conduct (fun past _ => good past ()) bad past x :=
  obeys_map

@[simp]
theorem obeys_attempt {good : List Exchange → Except Failure α → Prop} {x : Service α} :
    Obeys conduct good bad past (attempt x) ↔
      Obeys conduct (fun past a => good past (.ok a)) (fun past f => good past (.error f)) past x := by
  unfold Obeys attempt
  show Program.Obeys _ _ _ (x.run.bind _) ↔ _
  rw [Program.obeys_bind]
  apply iff_of_eq
  congr 1
  funext past r
  cases r <;> rfl

@[simp]
theorem obeys_ofExcept {x : Except Failure α} :
    Obeys conduct good bad past (ofExcept x) ↔
      (∀ a, x = .ok a → good past a) ∧ ∀ f, x = .error f → bad past f := by
  cases x with
  | ok a => simp [Obeys, ofExcept, Program.Obeys]
  | error f => simp [Obeys, ofExcept, Program.Obeys]

@[simp]
theorem obeys_counted {x : Except Fault α} :
    Obeys conduct good bad past (counted x) ↔ ∀ a, x = .ok a → good past a := by
  cases x with
  | ok a => simp [Obeys, counted, Except.map, Program.ofExcept, Program.Obeys]
  | error fault => simp [Obeys, counted, Except.map, Program.ofExcept, Program.Obeys]

theorem forall_reply {P : Except Failure α → Prop} :
    (∀ reply, True → P reply) ↔ (∀ a, P (.ok a)) ∧ ∀ f, P (.error f) := by
  constructor
  . intro h
    exact ⟨fun a => h (.ok a) trivial, fun f => h (.error f) trivial⟩
  . intro h reply _
    cases reply with
    | ok a => exact h.1 a
    | error f => exact h.2 f

@[simp]
theorem obeys_stored? {good : List Exchange → Option Strategy → Prop} {id : String} :
    Obeys conduct good bad past (stored? id) ↔
      conduct past (.find id) ∧ good (past ++ [⟨.find id, .ok none⟩]) none ∧
        ∀ s, s.id = id → good (past ++ [⟨.find id, .ok (some s)⟩]) (some s) := by
  apply and_congr_right
  intro _
  constructor
  . intro h
    refine ⟨h (.ok none) trivial, ?_⟩
    intro s hs
    exact h (.ok (some s)) hs
  . intro h reply hreply
    rcases reply with f | s
    . exact hreply.elim
    . cases s with
      | none => exact h.1
      | some s => exact h.2 s hreply

@[simp]
theorem obeys_commit {good : List Exchange → Nat → Prop} {s : Strategy} :
    Obeys conduct good bad past (commit s) ↔
      conduct past (.save s) ∧ (∀ version, good (past ++ [⟨.save s, .ok version⟩]) version) ∧
        ∀ f, bad (past ++ [⟨.save s, .error f⟩]) f := by
  apply and_congr_right
  intro _
  exact forall_reply

@[simp]
theorem obeys_candles {good : List Exchange → List (Candle Float) → Prop} {q : CandleRequest} :
    Obeys conduct good bad past (candles q) ↔
      conduct past (.fetch q) ∧ (∀ cs, good (past ++ [⟨.fetch q, .ok cs⟩]) cs) ∧
        ∀ f, bad (past ++ [⟨.fetch q, .error f⟩]) f := by
  apply and_congr_right
  intro _
  exact forall_reply

@[simp]
theorem obeys_announce {good : List Exchange → Unit → Prop} {e : Event} :
    Obeys conduct good bad past (announce e) ↔
      conduct past (.publish e) ∧ ∀ reply, good (past ++ [⟨.publish e, reply⟩]) () := by
  apply and_congr_right
  intro _
  exact forall_congr' fun reply => ⟨fun h => h trivial, fun h _ => h⟩

@[simp]
theorem obeys_currentTime {good : List Exchange → Instant → Prop} :
    Obeys conduct good bad past currentTime ↔
      conduct past .now ∧ ∀ t, good (past ++ [⟨.now, t⟩]) t := by
  apply and_congr_right
  intro _
  exact forall_congr' fun reply => ⟨fun h => h trivial, fun h _ => h⟩

@[simp]
theorem obeys_giveWay {good : List Exchange → Unit → Prop} :
    Obeys conduct good bad past giveWay ↔
      conduct past .giveWay ∧ good (past ++ [⟨.giveWay, ()⟩]) () := by
  apply and_congr_right
  intro _
  exact ⟨fun h => h () trivial, fun h _ _ => h⟩

end Service
end StrategyDesk
