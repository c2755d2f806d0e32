import Mathlib.Order.WithBot
import TradingOS.Data.ProviderAnswers

namespace TradingOS.Data.CandleValidation

open Lib ProviderAnswers

/-- A `Candle` as it is declared: the timestamp is a `datetime`, which `NaT` is not. -/
structure Candle extends Quote where
  isDatetime : timestamp ≠ .notATime

/-- `<` of two `datetime`s, which raises if only one of them knows its offset. -/
def lt : Stamp → Stamp → Except BuiltinError Bool
  | .naive wall, .naive wall' => .ok (wall < wall')
  | .aware ts, .aware ts' => .ok (ts.instant < ts'.instant)
  | .naive _, .aware _ | .aware _, .naive _ => .error .type
  | .notATime, _ | _, .notATime => .ok false

/-- How timestamps and prices are written. -/
structure Texts where
  isoformat : Stamp → String
  str : Number → String

structure Issue where
  kind : DataQualityIssue
  detail : String
  deriving DecidableEq

structure DataQualityReport where
  valid : Bool
  issues : List Issue

/-- What the loop carries from candle to candle. -/
structure Progress where
  issues : List Issue
  seenTimestamps : List Stamp
  previousTimestamp : Option Stamp

section Loop

variable (texts : Texts)

def duplicateIssues (seen : List Stamp) (c : Candle) : List Issue :=
  if seen.any (c.timestamp.Equal ·) then
    [⟨.duplicateTimestamp, texts.isoformat c.timestamp⟩]
  else []

def unsortedIssues (previous : Option Stamp) (c : Candle) : Except BuiltinError (List Issue) :=
  match previous with
  | none => .ok []
  | some p => (lt c.timestamp p).map fun before ↦
    if before then
      [⟨.unsorted, texts.isoformat c.timestamp ++ " follows " ++ texts.isoformat p⟩]
    else []

def volumeIssues (c : Candle) : List Issue :=
  if c.volume < 0 then [⟨.negativeVolume, texts.isoformat c.timestamp⟩] else []

def ohlcIssues (c : Candle) : List Issue :=
  if c.OhlcValid then []
  else [⟨.invalidOhlc, texts.isoformat c.timestamp ++ ": O=" ++ texts.str c.openPrice ++ " H=" ++
    texts.str c.high ++ " L=" ++ texts.str c.low ++ " C=" ++ texts.str c.close⟩]

def step (s : Progress) (c : Candle) : Except BuiltinError Progress := do
  let unsorted ← unsortedIssues texts s.previousTimestamp c
  return {
    issues := s.issues ++ (duplicateIssues texts s.seenTimestamps c ++ unsorted ++
      volumeIssues texts c ++ ohlcIssues texts c)
    seenTimestamps := c.timestamp :: s.seenTimestamps
    previousTimestamp := c.timestamp }

def validateCandles (candles : List Candle) : Except BuiltinError DataQualityReport := do
  let s ← candles.foldlM (step texts) ⟨[], [], none⟩
  return ⟨s.issues.length = 0, s.issues⟩

def Accepts (candles : List Candle) : Prop :=
  ∃ report, validateCandles texts candles = .ok report ∧ report.valid

end Loop

/-- A price on the extended line, where what is no number has no place. -/
def extended : Number → Option (WithBot (WithTop ℚ))
  | .finite x => some (WithBot.some (WithTop.some x))
  | .nan => none
  | .infinite true => some ⊥
  | .infinite false => some (WithBot.some ⊤)

/-- The body of the candle is within its range. -/
def BodyInRange (c : Candle) : Prop :=
  ∃ o h l k, extended c.openPrice = some o ∧ extended c.high = some h ∧
    extended c.low = some l ∧ extended c.close = some k ∧ l ≤ min o k ∧ max o k ≤ h

/-- What an acceptable list is. -/
structure Acceptable (candles : List Candle) : Prop where
  increasing : candles.Pairwise fun c d ↦ c.timestamp.Before d.timestamp
  volume : ∀ c ∈ candles, 0 ≤ c.volume
  body : ∀ c ∈ candles, BodyInRange c

/-- A bar of a whole day, stamped with the midnight that begins it. -/
def Daily (c : Candle) : Prop :=
  ∃ day, c.timestamp = .naive (day * Timestamp.dayLength) ∨
    c.timestamp = .aware (Timestamp.midnight day)

section Order

theorem number_le_iff {x y : Number} :
    x.le y ↔ ∃ a b, extended x = some a ∧ extended y = some b ∧ a ≤ b := by
  rcases x with x | - | - | - <;> rcases y with y | - | - | - <;>
    simp [Number.le, extended]

theorem ohlcValid_iff {c : Candle} : c.OhlcValid ↔ BodyInRange c := by
  simp only [Quote.OhlcValid, Bool.and_eq_true]
  constructor
  · rintro ⟨⟨⟨⟨-, hopen⟩, hclose⟩, hopen'⟩, hclose'⟩
    obtain ⟨l, o, hl, ho, hlo⟩ := number_le_iff.mp hopen'
    obtain ⟨l', k, hl', hk, hlk⟩ := number_le_iff.mp hclose'
    obtain ⟨o', h, ho', hh, hoh⟩ := number_le_iff.mp hopen
    obtain ⟨k', h', hk', hh', hkh⟩ := number_le_iff.mp hclose
    obtain rfl := Option.some.inj (hl.symm.trans hl')
    obtain rfl := Option.some.inj (ho.symm.trans ho')
    obtain rfl := Option.some.inj (hk.symm.trans hk')
    obtain rfl := Option.some.inj (hh.symm.trans hh')
    exact ⟨o, h, l, k, ho, hh, hl, hk, le_min hlo hlk, max_le hoh hkh⟩
  · rintro ⟨o, h, l, k, ho, hh, hl, hk, hlow, hhigh⟩
    obtain ⟨hlo, hlk⟩ := le_min_iff.mp hlow
    obtain ⟨hoh, hkh⟩ := max_le_iff.mp hhigh
    exact ⟨⟨⟨⟨number_le_iff.mpr ⟨l, h, hl, hh, hlo.trans hoh⟩,
      number_le_iff.mpr ⟨o, h, ho, hh, hoh⟩⟩, number_le_iff.mpr ⟨k, h, hk, hh, hkh⟩⟩,
      number_le_iff.mpr ⟨l, o, hl, ho, hlo⟩⟩, number_le_iff.mpr ⟨l, k, hl, hk, hlk⟩⟩

theorem before_trans {s t u : Stamp} (h : s.Before t) (h' : t.Before u) : s.Before u := by
  cases s <;> cases t <;> cases u <;> simp_all [Stamp.Before] <;> omega

theorem not_equal_of_before {s t : Stamp} (h : s.Before t) : ¬ t.Equal s := by
  cases s <;> cases t <;> simp_all [Stamp.Before, Stamp.Equal] <;> omega

theorem equal_comm (s t : Stamp) : s.Equal t = t.Equal s := by
  cases s <;> cases t <;> simp [Stamp.Equal, eq_comm]

/-- Of two `datetime`s that can be compared, one is before the other or they are the same. -/
theorem lt_eq_false_iff {s t : Stamp} (hs : s ≠ .notATime) (ht : t ≠ .notATime) :
    lt s t = .ok false ↔ t.Before s ∨ s.Equal t := by
  cases s <;> cases t <;> simp_all [lt, Stamp.Before, Stamp.Equal] <;> omega

end Order

section Steps

variable {texts : Texts} {s s' : Progress} {c : Candle} {candles : List Candle}

theorem unsortedIssues_eq_nil_iff {previous : Option Stamp} :
    unsortedIssues texts previous c = .ok [] ↔
      ∀ p, previous = some p → lt c.timestamp p = .ok false := by
  cases previous with
  | none => simp [unsortedIssues]
  | some p =>
    rw [unsortedIssues]
    cases hlt : lt c.timestamp p with
    | error e => simp [Except.map, hlt]
    | ok before => cases before <;> simp [Except.map, hlt]

/-- What a turn that reports nothing has found, and what it goes on with. -/
theorem step_ok (h : step texts s c = .ok s') :
    s'.seenTimestamps = c.timestamp :: s.seenTimestamps ∧ s'.previousTimestamp = c.timestamp ∧
      (s'.issues = [] ↔ s.issues = [] ∧ ¬ s.seenTimestamps.any (c.timestamp.Equal ·) ∧
        (∀ p, s.previousTimestamp = some p → lt c.timestamp p = .ok false) ∧
        0 ≤ c.volume ∧ BodyInRange c) := by
  rw [step] at h
  obtain ⟨unsorted, hunsorted, hs'⟩ := bind_eq_ok.mp h
  obtain rfl := Except.ok.inj hs'
  have hsorted : unsorted = [] ↔
      ∀ p, s.previousTimestamp = some p → lt c.timestamp p = .ok false := by
    rw [← @unsortedIssues_eq_nil_iff texts, hunsorted, Except.ok.injEq]
  refine ⟨rfl, rfl, ?_⟩
  simp only [List.append_eq_nil_iff, hsorted, duplicateIssues, volumeIssues, ohlcIssues,
    ← ohlcValid_iff]
  simp [and_assoc]

theorem exists_step (h : ∀ p, s.previousTimestamp = some p → lt c.timestamp p = .ok false) :
    ∃ s', step texts s c = .ok s' :=
  ⟨_, bind_eq_ok.mpr ⟨[], unsortedIssues_eq_nil_iff.mpr h, rfl⟩⟩

/-- The stamps seen are those of a strictly increasing list, the last of which is the previous. -/
structure Ascending (s : Progress) : Prop where
  previous : ∀ p, s.previousTimestamp = some p → p ∈ s.seenTimestamps
  seen : ∀ i ∈ s.seenTimestamps, i ≠ .notATime ∧
    ∃ p, s.previousTimestamp = some p ∧ (i = p ∨ i.Before p)

theorem Ascending.step (h : step texts s c = .ok s')
    (hlt : ∀ i ∈ s.seenTimestamps, i.Before c.timestamp) : Ascending s' := by
  obtain ⟨hseen, hprevious, -⟩ := step_ok h
  refine ⟨fun p hp ↦ ?_, ?_⟩
  · obtain rfl := Option.some.inj (hprevious.symm.trans hp)
    rw [hseen]
    exact List.mem_cons_self
  · rw [hseen, hprevious]
    refine List.forall_mem_cons.mpr ⟨⟨c.isDatetime, _, rfl, .inl rfl⟩, fun i hi ↦ ?_⟩
    refine ⟨?_, _, rfl, .inr (hlt i hi)⟩
    rintro rfl
    simpa [Stamp.Before] using hlt _ hi

/-- A comparison with the previous stamp and a look into the set compare with all stamps seen. -/
theorem Ascending.forall_before_iff (h : Ascending s) :
    ¬ s.seenTimestamps.any (c.timestamp.Equal ·) ∧
        (∀ p, s.previousTimestamp = some p → lt c.timestamp p = .ok false) ↔
      ∀ i ∈ s.seenTimestamps, i.Before c.timestamp := by
  simp only [List.any_eq_true, not_exists, not_and]
  constructor
  · rintro ⟨hnew, hprevious⟩ i hi
    obtain ⟨hdatetime, p, hp, hip⟩ := h.seen i hi
    have hmem := h.previous p hp
    have hpc : p.Before c.timestamp :=
      ((lt_eq_false_iff c.isDatetime (h.seen p hmem).1).mp (hprevious p hp)).resolve_right
        (hnew p hmem)
    rcases hip with rfl | hip
    · exact hpc
    · exact before_trans hip hpc
  · intro hlt
    refine ⟨fun i hi ↦ not_equal_of_before (hlt i hi), fun p hp ↦ ?_⟩
    have hmem := h.previous p hp
    exact (lt_eq_false_iff c.isDatetime (h.seen p hmem).1).mpr (.inl (hlt p hmem))

theorem acceptable_cons : Acceptable (c :: candles) ↔
    ((∀ d ∈ candles, c.timestamp.Before d.timestamp) ∧ 0 ≤ c.volume ∧ BodyInRange c) ∧
      Acceptable candles := by
  constructor
  · rintro ⟨hincreasing, hvolume, hbody⟩
    obtain ⟨hc, hincreasing⟩ := List.pairwise_cons.mp hincreasing
    obtain ⟨hvolume, hvolumes⟩ := List.forall_mem_cons.mp hvolume
    obtain ⟨hbody, hbodies⟩ := List.forall_mem_cons.mp hbody
    exact ⟨⟨hc, hvolume, hbody⟩, hincreasing, hvolumes, hbodies⟩
  · rintro ⟨⟨hc, hvolume, hbody⟩, hincreasing, hvolumes, hbodies⟩
    exact ⟨.cons hc hincreasing, List.forall_mem_cons.mpr ⟨hvolume, hvolumes⟩,
      List.forall_mem_cons.mpr ⟨hbody, hbodies⟩⟩

theorem issues_of_run {t : Progress} (h : candles.foldlM (step texts) s = .ok t)
    (ht : t.issues = []) : s.issues = [] := by
  induction candles generalizing s with
  | nil =>
    cases h
    exact ht
  | cons c cs ih =>
    obtain ⟨s', hs', hrest⟩ := bind_eq_ok.mp h
    exact ((step_ok hs').2.2.mp (ih hrest)).1

/-- From an ascending prefix on, nothing is reported exactly if the rest goes on ascending and each
of its candles is acceptable. -/
theorem run_clean_iff (h : Ascending s) :
    (∃ t, candles.foldlM (step texts) s = .ok t ∧ t.issues = []) ↔
      s.issues = [] ∧ (∀ i ∈ s.seenTimestamps, ∀ c ∈ candles, i.Before c.timestamp) ∧
        Acceptable candles := by
  induction candles generalizing s with
  | nil =>
    have hnil : Acceptable [] := ⟨.nil, by simp, by simp⟩
    simp [hnil, pure, Except.pure]
  | cons c cs ih =>
    rw [acceptable_cons]
    constructor
    · rintro ⟨t, hrun, ht⟩
      obtain ⟨s', hs', hrest⟩ := bind_eq_ok.mp hrun
      obtain ⟨hseen, -, hissues⟩ := step_ok hs'
      obtain ⟨hnone, hnew, hprevious, hvolume, hbody⟩ := hissues.mp (issues_of_run hrest ht)
      have hlt := h.forall_before_iff.mp ⟨hnew, hprevious⟩
      obtain ⟨-, hafter, hcs⟩ := (ih (Ascending.step hs' hlt)).mp ⟨t, hrest, ht⟩
      rw [hseen, List.forall_mem_cons] at hafter
      exact ⟨hnone, fun i hi ↦ List.forall_mem_cons.mpr ⟨hlt i hi, hafter.2 i hi⟩,
        ⟨hafter.1, hvolume, hbody⟩, hcs⟩
    · rintro ⟨hnone, hafter, ⟨hc, hvolume, hbody⟩, hcs⟩
      have hlt (i : Stamp) (hi : i ∈ s.seenTimestamps) : i.Before c.timestamp :=
        hafter i hi c List.mem_cons_self
      obtain ⟨hnew, hprevious⟩ := h.forall_before_iff.mpr hlt
      obtain ⟨s', hs'⟩ : ∃ s', step texts s c = .ok s' := exists_step hprevious
      obtain ⟨hseen, -, hissues⟩ := step_ok hs'
      obtain ⟨t, hrest, ht⟩ := (ih (Ascending.step hs' hlt)).mpr
        ⟨hissues.mpr ⟨hnone, hnew, hprevious, hvolume, hbody⟩, by
          rw [hseen]
          exact List.forall_mem_cons.mpr
            ⟨hc, fun i hi d hd ↦ hafter i hi d (List.mem_cons_of_mem _ hd)⟩, hcs⟩
      exact ⟨t, bind_eq_ok.mpr ⟨s', hs', hrest⟩, ht⟩

end Steps

/-- What `validate_candles` decides about a list. -/
structure Decides (texts : Texts) (candles : List Candle) : Prop where
  accepts_iff : Accepts texts candles ↔ Acceptable candles
  timestamps : Accepts texts candles → candles.Pairwise fun c d ↦ ¬ c.timestamp.Equal d.timestamp
  dates : Accepts texts candles → (∀ c ∈ candles, Daily c) →
    (candles.map fun c ↦ c.timestamp.date).Nodup

theorem accepts_iff_acceptable (texts : Texts) (candles : List Candle) :
    Accepts texts candles ↔ Acceptable candles := by
  have hrun := @run_clean_iff texts ⟨[], [], none⟩ candles ⟨by simp, by simp⟩
  simp only [List.not_mem_nil, false_imp_iff, implies_true, true_and] at hrun
  rw [← hrun, Accepts, validateCandles]
  constructor
  · rintro ⟨report, hreport, hvalid⟩
    obtain ⟨t, ht, heq⟩ := bind_eq_ok.mp hreport
    obtain rfl := Except.ok.inj heq
    exact ⟨t, ht, by simpa using hvalid⟩
  · rintro ⟨t, ht, hissues⟩
    exact ⟨_, bind_eq_ok.mpr ⟨t, ht, rfl⟩, by simp [hissues]⟩

theorem date_ne_of_daily {c d : Candle} (hc : Daily c) (hd : Daily d)
    (h : c.timestamp.Before d.timestamp) : c.timestamp.date ≠ d.timestamp.date := by
  obtain ⟨i, hi⟩ := hc
  obtain ⟨j, hj⟩ := hd
  have hnaive (day : ℤ) : (Stamp.naive (day * Timestamp.dayLength)).date = some day := by
    rw [Stamp.date, Int.mul_ediv_cancel _ (by decide)]
  have haware (day : ℤ) : (Stamp.aware (Timestamp.midnight day)).date = some day := by
    rw [Stamp.date, Timestamp.date_midnight]
  have hdatec : c.timestamp.date = some i := by
    rcases hi with hi | hi <;> rw [hi]
    · exact hnaive i
    · exact haware i
  have hdated : d.timestamp.date = some j := by
    rcases hj with hj | hj <;> rw [hj]
    · exact hnaive j
    · exact haware j
  rw [hdatec, hdated]
  intro heq
  obtain rfl := Option.some.inj heq
  rcases hi with hi | hi <;> rcases hj with hj | hj <;> simp [hi, hj, Stamp.Before] at h

theorem validateCandles_decides (texts : Texts) (candles : List Candle) :
    Decides texts candles := by
  refine ⟨accepts_iff_acceptable texts candles, fun h ↦ ?_, fun h hdaily ↦ ?_⟩
  · refine ((accepts_iff_acceptable texts candles).mp h).increasing.imp fun hlt ↦ ?_
    rw [equal_comm]
    exact not_equal_of_before hlt
  · rw [List.Nodup, List.pairwise_map]
    refine ((accepts_iff_acceptable texts candles).mp h).increasing.imp_of_mem ?_
    intro c d hc hd hlt
    exact date_ne_of_daily (hdaily c hc) (hdaily d hd) hlt

section Kinds

variable {texts : Texts} {s s' t : Progress} {c : Candle}

theorem kinds_unsortedIssues {previous : Option Stamp} {issues : List Issue}
    (h : unsortedIssues texts previous c = .ok issues) : issues.map Issue.kind =
      if previous.any (c.timestamp.Before ·) then [.unsorted] else [] := by
  have hlt {u v : Stamp} {before : Bool} (h : lt u v = .ok before) : u.Before v = before := by
    cases u <;> cases v <;> simp_all [lt, Stamp.Before]
  cases previous with
  | none =>
    cases h
    rfl
  | some p =>
    rw [unsortedIssues] at h
    cases hp : lt c.timestamp p with
    | error e =>
      rw [hp] at h
      cases h
    | ok before =>
      rw [hp] at h
      obtain rfl := Except.ok.inj h
      rw [Option.any_some, hlt hp]
      cases before <;> rfl

theorem kinds_step (h : step texts s c = .ok s') : s'.issues.map Issue.kind =
    s.issues.map Issue.kind ++ c.issues s.seenTimestamps s.previousTimestamp := by
  rw [step] at h
  obtain ⟨unsorted, hunsorted, hs'⟩ := bind_eq_ok.mp h
  obtain rfl := Except.ok.inj hs'
  simp only [List.map_append, kinds_unsortedIssues hunsorted, duplicateIssues, volumeIssues,
    ohlcIssues, Quote.issues, apply_ite (List.map Issue.kind), List.map_cons, List.map_nil]

theorem kinds_foldlM {candles : List Candle} (h : candles.foldlM (step texts) s = .ok t) :
    t.issues.map Issue.kind = s.issues.map Issue.kind ++
      validateQuotesFrom s.seenTimestamps s.previousTimestamp (candles.map Candle.toQuote) := by
  induction candles generalizing s with
  | nil =>
    cases h
    simp [validateQuotesFrom]
  | cons c cs ih =>
    obtain ⟨s', hs', hrest⟩ := bind_eq_ok.mp h
    obtain ⟨hseen, hprevious, -⟩ := step_ok hs'
    rw [ih hrest, kinds_step hs', hseen, hprevious, List.append_assoc]
    rfl

/-- The kinds that a list is reported with are those that the manager's own run finds. -/
theorem kinds_validateCandles {candles : List Candle} {report : DataQualityReport}
    (h : validateCandles texts candles = .ok report) :
    report.issues.map Issue.kind = validateQuotes (candles.map Candle.toQuote) := by
  obtain ⟨t, ht, heq⟩ := bind_eq_ok.mp h
  obtain rfl := Except.ok.inj heq
  exact kinds_foldlM ht

end Kinds

end TradingOS.Data.CandleValidation
