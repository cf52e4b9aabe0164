import DeepFeeder.Sinks.DhSink

set_option autoImplicit false

namespace DeepFeeder.DhSink

open Fallible

universe u

variable {Writer : Type u}

def writeOf (reg : WriterRegistry Writer) (t : Tick) : Option (Write Writer) :=
  (reg.resolve (tickPair t)).bind fun spec =>
    (spec.flattener.row t).map fun row => { writer := spec.writer, row }

def registered (reg : WriterRegistry Writer) (entries : List (Sigma fun _ : WriterKey => List Tick)) :
    List (WriterSpec Writer × List Tick) :=
  entries.filterMap fun b => (reg.resolve b.1).map fun spec => (spec, b.2)

def bucketWrites (b : WriterSpec Writer × List Tick) : Option (List (Write Writer)) :=
  (b.2.mapM b.1.flattener.row).map fun rows => rows.map fun row => { writer := b.1.writer, row }

section Calls

variable (refuses : List (Write Writer) → Write Writer → Bool)

def Accepts : List (Write Writer) → List (Write Writer) → Prop
  | _, [] => True
  | log, w :: rest => refuses log w = false ∧ Accepts (log ++ [w]) rest

def writePlans : List (WriterSpec Writer × List Tick) → List (Write Writer) → Outcome Writer
  | [], log => { raised := false, log }
  | b :: rest, log =>
      match bucketWrites b with
      | none => { raised := true, log }
      | some writes =>
          let out := writeRows refuses writes log
          if out.raised then out else writePlans rest out.log

variable {refuses} {log : List (Write Writer)}

theorem accepts_append {first later : List (Write Writer)} :
    Accepts refuses log (first ++ later) ↔
      Accepts refuses log first ∧ Accepts refuses (log ++ first) later := by
  induction first generalizing log with
  | nil => simp [Accepts]
  | cons w rest ih => simp [Accepts, ih, and_assoc]

theorem writeRows_of_accepts {writes : List (Write Writer)} (accepted : Accepts refuses log writes) :
    writeRows refuses writes log = { raised := false, log := log ++ writes } := by
  induction writes generalizing log with
  | nil => simp [writeRows]
  | cons w rest ih =>
      obtain ⟨taken, later⟩ := accepted
      simp [writeRows, taken, ih later]

theorem writeRows_raised {writes : List (Write Writer)} (refused : ¬ Accepts refuses log writes) :
    (writeRows refuses writes log).raised = true := by
  induction writes generalizing log with
  | nil => exact absurd trivial refused
  | cons w rest ih =>
      unfold writeRows
      split
      · rfl
      next taken =>
        apply ih
        intro later
        exact refused ⟨Bool.eq_false_iff.mpr taken, later⟩

theorem writeRows_extends (refuses : List (Write Writer) → Write Writer → Bool)
    (writes log : List (Write Writer)) :
    log <+: (writeRows refuses writes log).log := by
  induction writes generalizing log with
  | nil => exact List.prefix_rfl
  | cons w rest ih =>
      unfold writeRows
      split
      · exact List.prefix_rfl
      · exact (List.prefix_append log [w]).trans (ih _)

theorem writeRows_unchanged_iff {w : Write Writer} {rest : List (Write Writer)} :
    (writeRows refuses (w :: rest) log).log = log ↔ refuses log w = true := by
  unfold writeRows
  split
  next refused => simp [refused]
  next taken =>
    constructor
    · intro same
      have longer := (writeRows_extends refuses rest (log ++ [w])).length_le
      rw [same, List.length_append, List.length_singleton] at longer
      omega
    · exact fun refused => absurd refused taken

theorem writeBuckets_eq_writePlans (reg : WriterRegistry Writer)
    (entries : List (Sigma fun _ : WriterKey => List Tick)) :
    writeBuckets refuses reg entries log = writePlans refuses (registered reg entries) log := by
  induction entries generalizing log with
  | nil => rfl
  | cons b rest ih =>
      obtain ⟨pair, ticks⟩ := b
      unfold writeBuckets registered
      cases found : reg.resolve pair with
      | none =>
          rw [List.filterMap_cons_none (by rw [found, Option.map_none])]
          exact ih
      | some spec =>
          rw [List.filterMap_cons_some (by rw [found, Option.map_some])]
          have rows := zip_flatten spec.flattener ticks
          unfold writePlans bucketWrites
          simp only [← rows]
          cases spec.flattener.flatten ticks with
          | none => rfl
          | some cols =>
              simp only [Option.map_some]
              split
              · rfl
              · exact ih

def Unbroken (refuses : List (Write Writer) → Write Writer → Bool)
    (bs : List (WriterSpec Writer × List Tick)) (log : List (Write Writer)) : Prop :=
  ∃ plans, bs.mapM bucketWrites = some plans ∧ Accepts refuses log plans.flatten

def FailsFirst (refuses : List (Write Writer) → Write Writer → Bool)
    (bs : List (WriterSpec Writer × List Tick)) (log : List (Write Writer)) : Prop :=
  ∃ b rest, bs = b :: rest ∧
    (bucketWrites b = none ∨ ∃ w writes, bucketWrites b = some (w :: writes) ∧ refuses log w = true)

theorem unbroken_cons {b : WriterSpec Writer × List Tick} {rest : List (WriterSpec Writer × List Tick)} :
    Unbroken refuses (b :: rest) log ↔ ∃ writes, bucketWrites b = some writes ∧
      Accepts refuses log writes ∧ Unbroken refuses rest (log ++ writes) := by
  unfold Unbroken
  constructor
  · rintro ⟨plans, made, accepted⟩
    rw [mapM_cons_map, Option.bind_eq_some_iff] at made
    obtain ⟨writes, first, built⟩ := made
    obtain ⟨others, later, rfl⟩ := Option.map_eq_some_iff.mp built
    obtain ⟨taken, after⟩ := accepts_append.mp accepted
    exact ⟨writes, first, taken, others, later, after⟩
  · rintro ⟨writes, first, taken, others, later, after⟩
    refine ⟨writes :: others, ?_, accepts_append.mpr ⟨taken, after⟩⟩
    rw [mapM_cons_map, first, later]
    rfl

theorem writePlans_of_unbroken {bs : List (WriterSpec Writer × List Tick)}
    {plans : List (List (Write Writer))} (made : bs.mapM bucketWrites = some plans)
    (accepted : Accepts refuses log plans.flatten) :
    writePlans refuses bs log = { raised := false, log := log ++ plans.flatten } := by
  induction bs generalizing log plans with
  | nil =>
      cases made
      simp [writePlans]
  | cons b rest ih =>
      rw [mapM_cons_map, Option.bind_eq_some_iff] at made
      obtain ⟨writes, first, built⟩ := made
      obtain ⟨others, later, rfl⟩ := Option.map_eq_some_iff.mp built
      obtain ⟨taken, after⟩ := accepts_append.mp accepted
      simp [writePlans, first, writeRows_of_accepts taken, ih later after]

theorem writePlans_raised {bs : List (WriterSpec Writer × List Tick)}
    (broken : ¬ Unbroken refuses bs log) : (writePlans refuses bs log).raised = true := by
  induction bs generalizing log with
  | nil => exact absurd ⟨[], rfl, trivial⟩ broken
  | cons b rest ih =>
      unfold writePlans
      cases made : bucketWrites b with
      | none => rfl
      | some writes =>
          by_cases taken : Accepts refuses log writes
          · simp only [writeRows_of_accepts taken]
            apply ih
            intro later
            exact broken (unbroken_cons.mpr ⟨writes, made, taken, later⟩)
          · have raised := writeRows_raised taken
            simp [raised]

theorem writePlans_extends (refuses : List (Write Writer) → Write Writer → Bool)
    (bs : List (WriterSpec Writer × List Tick)) (log : List (Write Writer)) :
    log <+: (writePlans refuses bs log).log := by
  induction bs generalizing log with
  | nil => exact List.prefix_rfl
  | cons b rest ih =>
      unfold writePlans
      split
      · exact List.prefix_rfl
      next writes _ =>
        simp only
        split
        · exact writeRows_extends refuses writes log
        · exact (writeRows_extends refuses writes log).trans (ih _)

theorem bucketWrites_ne_nil {b : WriterSpec Writer × List Tick} (some : b.2 ≠ [])
    {writes : List (Write Writer)} (made : bucketWrites b = Option.some writes) : writes ≠ [] := by
  obtain ⟨spec, ticks⟩ := b
  cases ticks with
  | nil => exact absurd rfl some
  | cons t rest =>
      unfold bucketWrites at made
      obtain ⟨rows, flat, rfl⟩ := Option.map_eq_some_iff.mp made
      rw [mapM_cons_map, Option.bind_eq_some_iff] at flat
      obtain ⟨row, _, built⟩ := flat
      obtain ⟨others, _, rfl⟩ := Option.map_eq_some_iff.mp built
      simp

theorem writePlans_unchanged_iff {bs : List (WriterSpec Writer × List Tick)}
    (nonempty : ∀ b ∈ bs, b.2 ≠ []) (broken : ¬ Unbroken refuses bs log) :
    (writePlans refuses bs log).log = log ↔ FailsFirst refuses bs log := by
  cases bs with
  | nil => exact absurd ⟨[], rfl, trivial⟩ broken
  | cons b rest =>
      unfold writePlans FailsFirst
      cases made : bucketWrites b with
      | none => simp [made]
      | some writes =>
          obtain ⟨w, others, rfl⟩ :=
            List.exists_cons_of_ne_nil (bucketWrites_ne_nil (nonempty b List.mem_cons_self) made)
          have onlyFirst : (∃ b' rest', b :: rest = b' :: rest' ∧ (bucketWrites b' = none ∨
              ∃ w' writes', bucketWrites b' = some (w' :: writes') ∧ refuses log w' = true)) ↔
              refuses log w = true := by
            constructor
            · rintro ⟨b', rest', same, failed⟩
              obtain ⟨rfl, rfl⟩ := List.cons.inj same
              rcases failed with none | ⟨w', writes', again, refused⟩
              · rw [made] at none
                cases none
              · rw [made] at again
                cases again
                exact refused
            · exact fun refused => ⟨b, rest, rfl, .inr ⟨w, others, made, refused⟩⟩
          rw [onlyFirst]
          simp only
          split
          · exact writeRows_unchanged_iff
          next finished =>
            have taken : ¬ refuses log w = true := by
              intro refused
              exact finished (by simp [writeRows, refused])
            constructor
            · intro same
              have longer := (writePlans_extends refuses rest
                (writeRows refuses (w :: others) log).log).length_le
              rw [same] at longer
              have back := (writeRows_extends refuses (w :: others) log).eq_of_length_le longer
              exact writeRows_unchanged_iff.mp back.symm
            · exact fun refused => absurd refused taken

end Calls

variable {reg : WriterRegistry Writer} {env : Envelope}

theorem bucketWrites_writeOf {pair : WriterKey} {spec : WriterSpec Writer} {ticks : List Tick}
    {writes : List (Write Writer)} (found : reg.resolve pair = some spec)
    (same : ∀ t ∈ ticks, tickPair t = pair) (made : bucketWrites (spec, ticks) = some writes) :
    writes.map some = ticks.map (writeOf reg) := by
  unfold bucketWrites at made
  obtain ⟨rows, flat, rfl⟩ := Option.map_eq_some_iff.mp made
  have each : ticks.map (writeOf reg) = (ticks.map spec.flattener.row).map
      (Option.map fun row => { writer := spec.writer, row }) := by
    rw [List.map_map]
    apply List.map_congr_left
    intro t member
    unfold writeOf
    rw [same t member, found, Option.bind_some]
    rfl
  rw [each, ← map_some_of_mapM flat, List.map_map, List.map_map]
  rfl

/-- The rows written are, pair by pair, those of all ticks of the pair in arrival order, for each pair
that has a writer. -/
def WrittenOnce (reg : WriterRegistry Writer) (env : Envelope) (written : List (Write Writer)) : Prop :=
  ∃ pairs : List WriterKey, pairs.Nodup ∧
    (∀ pair, pair ∈ pairs ↔ pair ∈ env.rows.map tickPair ∧ (reg.resolve pair).isSome = true) ∧
    written.map some = pairs.flatMap fun pair =>
      (env.rows.filter fun t => tickPair t = pair).map (writeOf reg)

theorem plans_writeOf {entries : List (Sigma fun _ : WriterKey => List Tick)}
    (groups : ∀ b ∈ entries, b.2 = env.rows.filter fun t => tickPair t = b.1)
    {plans : List (List (Write Writer))}
    (made : (registered reg entries).mapM bucketWrites = some plans) :
    plans.flatten.map some =
      (entries.keys.filter fun pair => (reg.resolve pair).isSome).flatMap fun pair =>
        (env.rows.filter fun t => tickPair t = pair).map (writeOf reg) := by
  induction entries generalizing plans with
  | nil =>
      cases made
      rfl
  | cons b rest ih =>
      obtain ⟨pair, ticks⟩ := b
      have here : ticks = env.rows.filter fun t => tickPair t = pair := groups _ List.mem_cons_self
      have others := fun b member => groups b (List.mem_cons_of_mem _ member)
      unfold registered at made ih
      rw [List.keys_cons, List.filter_cons]
      cases found : reg.resolve pair with
      | none =>
          rw [List.filterMap_cons_none (by rw [found, Option.map_none])] at made
          rw [if_neg (by simp)]
          exact ih others made
      | some spec =>
          rw [List.filterMap_cons_some (by rw [found, Option.map_some]), mapM_cons_map,
            Option.bind_eq_some_iff] at made
          obtain ⟨writes, first, built⟩ := made
          obtain ⟨later, rest, rfl⟩ := Option.map_eq_some_iff.mp built
          have same : ∀ t ∈ ticks, tickPair t = pair := by
            intro t member
            rw [here] at member
            exact of_decide_eq_true (List.mem_filter.mp member).2
          rw [if_pos (by simp), List.flatMap_cons, List.flatten_cons, List.map_append,
            ih others rest, bucketWrites_writeOf found same first, ← here]

theorem buckets_groups (env : Envelope) : ∀ b ∈ (buckets env).entries,
    b.1 ∈ env.rows.map tickPair ∧ b.2 = env.rows.filter fun t => tickPair t = b.1 := by
  rintro ⟨pair, ticks⟩ member
  exact Dict.mem_entries_groupBy member

theorem writtenOnce_of_plans {plans : List (List (Write Writer))}
    (made : (registered reg (buckets env).entries).mapM bucketWrites = some plans) :
    WrittenOnce reg env plans.flatten := by
  refine ⟨(buckets env).keys.filter fun pair => (reg.resolve pair).isSome, ?_, ?_, ?_⟩
  · exact (buckets env).keys_nodup.filter _
  · intro pair
    rw [List.mem_filter]
    exact and_congr_left' Dict.mem_keys_groupBy
  · exact plans_writeOf (fun b member => (buckets_groups env b member).2) made

theorem registered_nonempty (reg : WriterRegistry Writer) (env : Envelope) :
    ∀ b ∈ registered reg (buckets env).entries, b.2 ≠ [] := by
  intro b member
  obtain ⟨group, stored, chosen⟩ := List.mem_filterMap.mp member
  obtain ⟨spec, _, rfl⟩ := Option.map_eq_some_iff.mp chosen
  obtain ⟨present, ticks⟩ := buckets_groups env group stored
  obtain ⟨t, inRows, same⟩ := List.mem_map.mp present
  rw [ticks]
  exact List.ne_nil_of_mem (List.mem_filter.mpr ⟨inRows, decide_eq_true same⟩)

/-- A call that raises has written nothing; one that returns has written every tick with a writer. -/
def AllOrNothing (refuses : List (Write Writer) → Write Writer → Bool) (reg : WriterRegistry Writer)
    (env : Envelope) (log : List (Write Writer)) : Prop :=
  let out := writeEnvelope refuses reg env log
  (out.raised = true → out.log = log) ∧
    (out.raised = false → ∃ written, out.log = log ++ written ∧ WrittenOnce reg env written)

theorem writeEnvelope_allOrNothing_iff (refuses : List (Write Writer) → Write Writer → Bool)
    (reg : WriterRegistry Writer) (env : Envelope) (log : List (Write Writer)) :
    AllOrNothing refuses reg env log ↔
      FailsFirst refuses (registered reg (buckets env).entries) log ∨
        Unbroken refuses (registered reg (buckets env).entries) log := by
  have nonempty := registered_nonempty reg env
  unfold AllOrNothing writeEnvelope
  rw [writeBuckets_eq_writePlans]
  by_cases unbroken : Unbroken refuses (registered reg (buckets env).entries) log
  · obtain ⟨plans, made, accepted⟩ := unbroken
    have finished := writePlans_of_unbroken made accepted
    constructor
    · exact fun _ => .inr ⟨plans, made, accepted⟩
    · intro _
      rw [finished]
      exact ⟨by simp, fun _ => ⟨plans.flatten, rfl, writtenOnce_of_plans made⟩⟩
  · have raised := writePlans_raised unbroken
    have unchanged := writePlans_unchanged_iff nonempty unbroken
    constructor
    · intro both
      exact .inl (unchanged.mp (both.1 raised))
    · rintro (fails | finished)
      · exact ⟨fun _ => unchanged.mpr fails, fun returned => by rw [raised] at returned; cases returned⟩
      · exact absurd finished unbroken

def twoTrades : Envelope :=
  { batchId := 1, producedAtNs := 0, firstOffset := none, lastOffset := none
    rows :=
      [ { provider := "binance", stream := "trades", symbol := "BTCUSDT", tsNs := 1000, seq := some 1
          payload := [("Price", .float 100), ("Quantity", .float 1)] },
        { provider := "binance", stream := "trades", symbol := "BTCUSDT", tsNs := 2000, seq := some 2
          payload := [("Price", .float 101), ("Quantity", .float 1)] } ] }

theorem first_row_stays :
    ¬ AllOrNothing (fun log _ => log.length = 1) (registerWriters fun ns => some (.int ns)) twoTrades
      [] := by
  intro both
  have raised : (writeEnvelope (fun log _ => log.length = 1) (registerWriters fun ns => some (.int ns))
      twoTrades []).raised = true := by decide +kernel
  have written := congrArg List.length (both.1 raised)
  revert written
  decide +kernel

end DeepFeeder.DhSink
