import StrategyDesk.Proofs.Json.Records
import StrategyDesk.Proofs.Outcome
import StrategyDesk.Proofs.Strategy.Release

/-!
This module contains that strategies are read back from JSON. What is read is checked, so that a
strategy is read back only if its id and its configuration are valid, which they always are in its
life.
-/

namespace StrategyDesk

open Json JsonForm LosslessForm

namespace Strategy

structure IsWritable (s : Strategy) : Prop where
  config : Writable s.config
  result : ∀ r ∈ s.result, Writable r
  testedAt : ∀ t ∈ s.testedAt, Writable t
  reconfiguredAt : ∀ t ∈ s.reconfiguredAt, Writable t
  activatedAt : ∀ t ∈ s.activatedAt, Writable t
  stoppedAt : ∀ t ∈ s.stoppedAt, Writable t
  createdAt : Writable s.createdAt
  updatedAt : Writable s.updatedAt
  version : Writable s.version

def members (s : Strategy) : List (String × Option Json) :=
  [member "id" s.id, member "ownerId" s.ownerId] ++ s.config.members ++ [
    member "status" s.status,
    memberIf "backtestResults" s.result,
    memberIf "lastBacktestedAt" s.testedAt,
    memberIf "reconfiguredAt" s.reconfiguredAt,
    memberIf "activatedAt" s.activatedAt,
    memberIf "stoppedAt" s.stoppedAt,
    member "createdAt" s.createdAt,
    member "updatedAt" s.updatedAt,
    member "version" s.version]

variable {s t : Strategy} {j : Json} {values : List (String × Json)}

theorem nodup_members (s : Strategy) : (s.members.map Prod.fst).Nodup := by
  simp [members, Config.members, member, memberIf]

theorem ofMembers?_eq_some_iff :
    ofMembers? values = some s ↔
      let fs : Fields := { values, void := .null }
      fs.required "id" = some s.id ∧
      fs.required "ownerId" = some s.ownerId ∧
      Config.ofFields? { values, void := .nullOrEmpty } = some s.config ∧
      fs.required "status" = some s.status ∧
      fs.optional "backtestResults" = some s.result ∧
      fs.optional "lastBacktestedAt" = some s.testedAt ∧
      fs.optional "reconfiguredAt" = some s.reconfiguredAt ∧
      fs.optional "activatedAt" = some s.activatedAt ∧
      fs.optional "stoppedAt" = some s.stoppedAt ∧
      fs.required "createdAt" = some s.createdAt ∧
      fs.required "updatedAt" = some s.updatedAt ∧
      fs.withDefault "version" 0 = some s.version ∧
      s.pending = [] := by
  unfold ofMembers?
  constructor
  . intro h
    obtain ⟨_, hid, h⟩ := Option.bind_eq_some_iff.mp h
    obtain ⟨_, hownerId, h⟩ := Option.bind_eq_some_iff.mp h
    obtain ⟨_, hconfig, h⟩ := Option.bind_eq_some_iff.mp h
    obtain ⟨_, hstatus, h⟩ := Option.bind_eq_some_iff.mp h
    obtain ⟨_, hresult, h⟩ := Option.bind_eq_some_iff.mp h
    obtain ⟨_, htestedAt, h⟩ := Option.bind_eq_some_iff.mp h
    obtain ⟨_, hreconfiguredAt, h⟩ := Option.bind_eq_some_iff.mp h
    obtain ⟨_, hactivatedAt, h⟩ := Option.bind_eq_some_iff.mp h
    obtain ⟨_, hstoppedAt, h⟩ := Option.bind_eq_some_iff.mp h
    obtain ⟨_, hcreatedAt, h⟩ := Option.bind_eq_some_iff.mp h
    obtain ⟨_, hupdatedAt, h⟩ := Option.bind_eq_some_iff.mp h
    obtain ⟨_, hversion, h⟩ := Option.bind_eq_some_iff.mp h
    cases h
    exact ⟨hid, hownerId, hconfig, hstatus, hresult, htestedAt, hreconfiguredAt, hactivatedAt, hstoppedAt,
      hcreatedAt, hupdatedAt, hversion, rfl⟩
  . rintro ⟨hid, hownerId, hconfig, hstatus, hresult, htestedAt, hreconfiguredAt, hactivatedAt, hstoppedAt,
      hcreatedAt, hupdatedAt, hversion, hpending⟩
    dsimp only
    rw [hid, hownerId, hconfig, hstatus, hresult, htestedAt, hreconfiguredAt, hactivatedAt, hstoppedAt,
      hcreatedAt, hupdatedAt, hversion, ← hpending]
    rfl

theorem ofMembers?_written (h : s.IsWritable) : ofMembers? (written s.members) = some s.published := by
  have hshow : ∀ void, Fields.Show ⟨written s.members, void⟩ s.members :=
    fun _ => Fields.show_written s.nodup_members
  have hconfig : Fields.Show ⟨written s.members, .nullOrEmpty⟩ s.config.members :=
    (hshow _).mono fun m hmem => by simp [members, hmem]
  have hshow := hshow .null
  rw [ofMembers?_eq_some_iff]
  simp only [published]
  refine ⟨?_, ?_, Config.ofFields?_of_show hconfig h.config, ?_, ?_, ?_, ?_, ?_, ?_, ?_, ?_, ?_, trivial⟩
  . exact hshow.required (by simp [members]) trivial
  . exact hshow.required (by simp [members]) trivial
  . exact hshow.required (by simp [members]) trivial
  . exact hshow.optional (by simp [members]) h.result
  . exact hshow.optional (by simp [members]) h.testedAt
  . exact hshow.optional (by simp [members]) h.reconfiguredAt
  . exact hshow.optional (by simp [members]) h.activatedAt
  . exact hshow.optional (by simp [members]) h.stoppedAt
  . exact hshow.required (by simp [members]) h.createdAt
  . exact hshow.required (by simp [members]) h.updatedAt
  . exact hshow.withDefault (by simp [members]) h.version

theorem isWritable_of_ofMembers? (hvalues : ∀ m ∈ values, m.2.IsProper)
    (h : ofMembers? values = some s) : s.IsWritable ∧ s.published = s := by
  have hfs : Fields.IsProper ⟨values, .null⟩ := hvalues
  have hconfigs : Fields.IsProper ⟨values, .nullOrEmpty⟩ := hvalues
  have hzero : Writable 0 := Nat.pow_pos (by decide)
  obtain ⟨_, _, hconfig, _, hresult, htestedAt, hreconfiguredAt, hactivatedAt, hstoppedAt, hcreatedAt,
    hupdatedAt, hversion, hpending⟩ := ofMembers?_eq_some_iff.mp h
  constructor
  . exact {
      config := Config.isWritable_of_ofFields? hconfigs hconfig
      result := hfs.optional hresult
      testedAt := hfs.optional htestedAt
      reconfiguredAt := hfs.optional hreconfiguredAt
      activatedAt := hfs.optional hactivatedAt
      stoppedAt := hfs.optional hstoppedAt
      createdAt := hfs.required hcreatedAt
      updatedAt := hfs.required hupdatedAt
      version := hfs.withDefault hzero hversion }
  . unfold published
    rw [← hpending]

theorem check_eq_ok_iff :
    (do checkId s.id; s.config.validate : Except Failure Unit) = .ok () ↔
      checkId s.id = .ok () ∧ s.config.validate = .ok () := by
  rw [bind_eq_ok_iff]
  constructor
  . rintro ⟨⟨⟩, hid, hvalid⟩
    exact ⟨hid, hvalid⟩
  . rintro ⟨hid, hvalid⟩
    exact ⟨(), hid, hvalid⟩

theorem ofJson_eq_ok_iff :
    ofJson j = .ok s ↔
      ∃ values, j = .object values ∧ ofMembers? values = some s ∧ checkId s.id = .ok () ∧
        s.config.validate = .ok () := by
  constructor
  . intro h
    unfold ofJson at h
    split at h
    . next values =>
      split at h
      . cases h
      . next t hread =>
        split at h
        . next hcheck =>
          injection h with h
          subst h
          exact ⟨values, rfl, hread, check_eq_ok_iff.mp hcheck⟩
        . cases h
    . cases h
  . rintro ⟨values, rfl, hread, hcheck⟩
    unfold ofJson
    dsimp only
    rw [hread]
    dsimp only
    rw [check_eq_ok_iff.mpr hcheck]

theorem ofJson_toJson (hid : checkId s.id = .ok ()) (hvalid : s.config.validate = .ok ())
    (h : s.IsWritable) : ofJson s.toJson = .ok s.published :=
  ofJson_eq_ok_iff.mpr ⟨_, rfl, ofMembers?_written h, hid, hvalid⟩

theorem ofJson_toJson_of_ofJson (hj : j.IsProper) (h : ofJson j = .ok s) :
    ofJson s.toJson = .ok s := by
  obtain ⟨values, rfl, hread, hid, hvalid⟩ := ofJson_eq_ok_iff.mp h
  cases hj with
  | object hvalues =>
    obtain ⟨hwritable, hpublished⟩ := isWritable_of_ofMembers? hvalues hread
    rw [ofJson_toJson hid hvalid hwritable, hpublished]

theorem checkId_eq_ok_iff {id : String} : checkId id = .ok () ↔ Text.allBlank id.toList = false := by
  unfold checkId
  split
  . next hblank => simp [hblank]
  . next hblank => simpa using hblank

/-! ## What a strategy holds -/

end Strategy

def Command.IsWritable : Command → Prop
  | .completeBacktest result => Writable result
  | .failBacktest _ capital => Writable capital
  | .updateConfiguration cfg => Writable cfg
  | _ => True

def Deed.IsWritable : Deed → Prop
  | .perform command now => command.IsWritable ∧ Writable now
  | .save version => Writable version
  | .publish => True

theorem isFinite_zero : Arithmetic.isFinite (Arithmetic.ofNat 0 : Float) = true := by
  rfl

theorem BacktestResult.isWritable_failed {capital : Float} (h : Writable capital) (reason : String) :
    (BacktestResult.failed capital reason).IsWritable := by
  have hcount : Writable 0 := Nat.pow_pos (by decide)
  have hloss : Arithmetic.isFinite (-Arithmetic.ofNat 100 : Float) = true := by
    rfl
  unfold BacktestResult.failed
  constructor
  all_goals
    dsimp only
  . exact h
  . exact isFinite_zero
  . exact hcount
  . exact hcount
  . exact hcount
  . exact isFinite_zero
  . exact hloss
  . exact isFinite_zero
  . exact nofun

namespace Strategy

variable {s t : Strategy} {command : Command} {now : Instant}

theorem IsWritable.perform (h : s.IsWritable) (hcommand : command.IsWritable) (hnow : Writable now)
    (hperform : s.perform command now = .ok t) : t.IsWritable := by
  have hsome : ∀ time ∈ some now, Writable time := by
    rintro _ ⟨⟩
    exact hnow
  obtain ⟨_, _, rfl⟩ := perform_eq_ok_iff.mp hperform
  cases command with
  | completeBacktest result =>
    have hresult : ∀ r ∈ some result, Writable r := by
      rintro _ ⟨⟩
      exact hcommand
    exact { h with result := hresult, testedAt := hsome, updatedAt := hnow }
  | failBacktest reason capital =>
    have hresult : ∀ r ∈ some (BacktestResult.failed capital reason), Writable r := by
      rintro _ ⟨⟩
      exact BacktestResult.isWritable_failed hcommand reason
    exact { h with result := hresult, testedAt := hsome, updatedAt := hnow }
  | activate => exact { h with activatedAt := hsome, stoppedAt := nofun, updatedAt := hnow }
  | stop => exact { h with stoppedAt := hsome, updatedAt := hnow }
  | updateConfiguration cfg =>
    exact { h with config := hcommand, reconfiguredAt := hsome, updatedAt := hnow }
  | _ => exact { h with updatedAt := hnow }

theorem IsWritable.after (h : s.IsWritable) {deed : Deed} (hdeed : deed.IsWritable) :
    (s.after deed).IsWritable := by
  cases deed with
  | perform command now =>
    cases hperform : s.perform command now with
    | ok t =>
      rw [after_of_perform hperform]
      exact h.perform hdeed.1 hdeed.2 hperform
    | error f =>
      rw [after_of_refused hperform]
      exact h
  | save version => exact { h with version := hdeed }
  | publish => exact { h with }

theorem IsWritable.live (h : s.IsWritable) {deeds : List Deed} (hdeeds : ∀ deed ∈ deeds, deed.IsWritable) :
    (s.live deeds).IsWritable := by
  induction deeds generalizing s with
  | nil => exact h
  | cons deed deeds ih =>
    rw [List.forall_mem_cons] at hdeeds
    exact ih (h.after hdeeds.1) hdeeds.2

theorem isWritable_of_create {id ownerId : String} {cfg : Config Float} (hcfg : Writable cfg)
    (hnow : Writable now) (h : create id ownerId cfg now = .ok s) : s.IsWritable := by
  obtain ⟨_, _, rfl⟩ := create_eq_ok_iff.mp h
  constructor
  case config => exact hcfg
  case createdAt => exact hnow
  case updatedAt => exact hnow
  case version => exact Nat.pow_pos (by decide)
  all_goals
    exact nofun

theorem id_after (s : Strategy) (deed : Deed) : (s.after deed).id = s.id := by
  cases deed with
  | perform command now =>
    cases hperform : s.perform command now with
    | ok t =>
      rw [after_of_perform hperform]
      exact id_of_perform hperform
    | error f => rw [after_of_refused hperform]
  | _ => rfl

theorem id_live (s : Strategy) (deeds : List Deed) : (s.live deeds).id = s.id := by
  induction deeds generalizing s with
  | nil => rfl
  | cons deed deeds ih => exact (ih (s.after deed)).trans (id_after s deed)

/-! ## Reading back -/

/-- Whether what a value of JSON is read as is read back once it was written again. -/
def Rereads (α : Type) [JsonForm α] (j : Json) : Prop :=
  ∀ x : α, read? j = some x → read? (JsonForm.toJson x) = some x

theorem rereads (α : Type) [JsonForm α] [LosslessForm α] (hj : j.IsProper) : Rereads α j :=
  fun _ h => ofJson?_toJson (writable_of_ofJson? hj h) .null

/--
A strategy is read back from JSON at any point of its life, apart from its events, if its numbers and
times can be written. Whatever JSON is read as, be it a strategy or a part of one, an event or a
signal, is read back when it is written again, and a strategy that is read is valid.
-/
theorem reads_back :
    (∀ {id ownerId : String} {cfg : Config Float} {now : Instant} {s : Strategy},
      create id ownerId cfg now = .ok s → ∀ deeds : List Deed, (s.live deeds).IsWritable →
        ofJson (s.live deeds).toJson = .ok (s.live deeds).published) ∧
    ∀ {j : Json}, j.IsProper →
      (∀ s, ofJson j = .ok s →
        ofJson s.toJson = .ok s ∧ Text.allBlank s.id.toList = false ∧ s.config.validate = .ok ()) ∧
      (∀ members void ind, j = .object members →
        Indicator.ofFields? { values := members, void } = some ind →
          Indicator.ofFields? { values := written ind.members, void } = some ind) ∧
      Rereads (Config Float) j ∧ Rereads (Indicator Float) j ∧ Rereads (KeyedIndicator Float) j ∧
      Rereads (RuleSet Float) j ∧ Rereads (BacktestResult Float) j ∧ Rereads (Trade Float) j ∧
      Rereads Event j ∧ Rereads (Signal Float) j := by
  constructor
  . intro id ownerId cfg now s h deeds hwritable
    have hid : checkId (s.live deeds).id = .ok () := by
      obtain ⟨hid, _, rfl⟩ := create_eq_ok_iff.mp h
      rw [id_live]
      exact hid
    exact ofJson_toJson hid ((sound_of_create h).live deeds).valid hwritable
  . intro j hj
    refine ⟨?_, ?_, rereads _ hj, rereads _ hj, rereads _ hj, rereads _ hj, rereads _ hj, rereads _ hj,
      rereads _ hj, rereads _ hj⟩
    . intro s h
      obtain ⟨_, _, _, hid, hvalid⟩ := ofJson_eq_ok_iff.mp h
      exact ⟨ofJson_toJson_of_ofJson hj h, checkId_eq_ok_iff.mp hid, hvalid⟩
    . rintro members void ind rfl h
      have hfs : Fields.IsProper ⟨members, void⟩ := by
        cases hj with
        | object hmembers => exact hmembers
      exact Indicator.ofFields?_of_show (Fields.show_written ind.nodup_members)
        (Indicator.isWritable_of_ofFields? hfs h)

def draftJson : Json :=
  .object [
    ("id", .string "s"), ("ownerId", .string "owner"), ("name", .string "Crossing"),
    ("type", .string "custom"), ("symbols", .array [.string "BTC"]), ("timeframe", .string "1d"),
    ("indicators", .array [.object [("key", .string "sma"), ("kind", .int 0), ("period", .int 1)]]),
    ("rules", .object [
      ("entry", .array [.array [.string "sma", .object [(">", .object [])], .int 105]]),
      ("exit", .array [])]),
    ("risk", .object [("positionSizePercent", .float 10), ("maxDrawdownPercent", .int 50)]),
    ("status", .string "DRAFT"), ("createdAt", .string "2024-02-29T23:59:60.5+02:00"),
    ("updatedAt", .string "+12024-01-01T00:00:00Z")]

theorem isProper_draftJson : draftJson.IsProper := by
  have hfloat : Arithmetic.isFinite (10 : Float) = true := by
    rfl
  simp [draftJson, hfloat]

theorem isWritable_crossingConfig (symbols : List String) : (crossingConfig symbols).IsWritable := by
  have hthreshold : Arithmetic.isFinite (105 : Float) = true := by
    rfl
  have hpercents : Arithmetic.isFinite (10 : Float) = true ∧ Arithmetic.isFinite (50 : Float) = true :=
    ⟨rfl, rfl⟩
  unfold crossingConfig
  constructor
  . exact List.forall_mem_singleton.mpr (Nat.one_lt_two_pow (by decide))
  . exact ⟨List.forall_mem_singleton.mpr hthreshold, List.forall_mem_singleton.mpr hthreshold⟩
  . constructor
    all_goals
      dsimp only
    . exact hpercents.1
    . exact hpercents.2
    . exact nofun
    . exact nofun

theorem isWritable_winningResult : winningResult.IsWritable := by
  have hcounts : Writable 0 ∧ Writable 1 := ⟨Nat.pow_pos (by decide), Nat.one_lt_two_pow (by decide)⟩
  constructor
  case totalTrades => exact hcounts.2
  case winningTrades => exact hcounts.2
  case losingTrades => exact hcounts.1
  case trades => exact nofun
  all_goals
    unfold winningResult
    show Arithmetic.isFinite _ = true
    rfl

theorem isWritable_sampleLife : ∀ deed ∈ sampleLife { seconds := 0 }, deed.IsWritable := by
  have hnow : Writable ({ seconds := 0 } : Instant) := ⟨by decide, by decide, by decide⟩
  have hcapital : Arithmetic.isFinite (1000 : Float) = true := by
    rfl
  have hversion : Writable 5 := by
    show 5 < Nat.pow 2 64
    decide
  simp only [sampleLife, List.forall_mem_cons]
  exact ⟨⟨trivial, hnow⟩, ⟨hcapital, hnow⟩, ⟨trivial, hnow⟩, ⟨isWritable_winningResult, hnow⟩,
    ⟨trivial, hnow⟩, hversion, trivial, ⟨trivial, hnow⟩, List.forall_mem_nil _⟩

theorem reads_back_sampleLife :
    let now : Instant := { seconds := 0 }
    (∃ s, create "s" "owner" (crossingConfig ["BTC"]) now = .ok s ∧
      ofJson (s.live (sampleLife now)).toJson = .ok (s.live (sampleLife now)).published) ∧
    ∃ s, ofJson draftJson = .ok s ∧ s.createdAt = { seconds := 1709243999, nanos := 1500000000 } ∧
      ofJson s.toJson = .ok s := by
  intro now
  have hnow : Writable now := ⟨by decide, by decide, by decide⟩
  have hid : (create "s" "owner" (crossingConfig ["BTC"]) now).toOption.map Strategy.id = some "s" := by
    decide +kernel
  obtain ⟨s, hs, _⟩ := exists_ok_of_toOption hid
  have hwritable := (isWritable_of_create (isWritable_crossingConfig _) hnow hs).live isWritable_sampleLife
  have hcreatedAt : (ofJson draftJson).toOption.map Strategy.createdAt =
      some { seconds := 1709243999, nanos := 1500000000 } := by
    decide +kernel
  obtain ⟨t, ht, hcreatedAt⟩ := exists_ok_of_toOption hcreatedAt
  exact ⟨⟨s, hs, reads_back.1 hs _ hwritable⟩, t, ht, hcreatedAt,
    ((reads_back.2 isProper_draftJson).1 t ht).1⟩

end Strategy
end StrategyDesk
