import GeistServe.Perf.Text
import GeistServe.Proofs.Codecs

/-!
# The text of a record is read back

A line of the journal is the text of an object (`recordJson_eq`), so `json_parse` takes it
and the lookups of `parse` find what the writers put under each key. What comes of it is
`restored`: a number below zero has become unknown, an engine without a source state has
`unknown` for one, and what the writers leave out is as a fresh record has it.
-/

namespace GeistServe.Proofs

open GeistServe.Lib GeistServe.Geistd GeistServe.Json GeistServe.Perf

/-! ## The trees of the writers -/

def quoteTree (s : CStr) : Tree := .str (s.flatMap gdEscape)

def nullTree : Tree := .prim (lit "null")

def valueTree (s : CStr) : Tree := if s.isEmpty then nullTree else quoteTree s

def numberTree (n : Double) : Tree := .prim (number n)

def truthTree (b : Bool) : Tree := .prim (truth b)

def countTree (n : Nat) : Tree := .prim (decimal n)

def libMembers (e : Perf.AppEngine) : List (Bytes × Tree) :=
  [(lit "version", valueTree e.version), (lit "revision", valueTree e.revision),
    (lit "source_state",
      quoteTree (if e.sourceState.isEmpty then lit "unknown" else e.sourceState))]

def engineMembers (e : Perf.AppEngine) : List (Bytes × Tree) :=
  [(lit "geistlib", .obj (libMembers e)), (lit "payload_sha256", valueTree e.payloadSha256),
    (lit "unavailable_reason",
      if e.version.isEmpty || e.revision.isEmpty then quoteTree (lit "not_reported")
      else nullTree)]

def memoryMembers (m : MemoryRecord) (rss peakRss : Double) (rssSamples : Nat) :
    List (Bytes × Tree) :=
  [(lit "process_generation", valueTree m.generation),
    (lit "sampled_at",
      numberTree (if Double.lt (.fin 0) m.sampledAt then m.sampledAt else .fin (-1))),
    (lit "process_rss_bytes", numberTree rss),
    (lit "process_rss_sampled_peak_bytes", numberTree peakRss),
    (lit "process_rss_sample_age_ms", numberTree m.rssAgeMs),
    (lit "rss_unavailable_reason",
      if atLeast 0 rss then nullTree
      else quoteTree (if Double.lt (.fin 6000) m.rssAgeMs then lit "stale"
        else if atLeast 0 m.rssAgeMs then lit "query_failed" else lit "not_collected")),
    (lit "rss_source", quoteTree (rssSourceName m.rssSource)),
    (lit "rss_samples", countTree rssSamples),
    (lit "sample_interval_ms", .prim (lit "2000")),
    (lit "status", countTree m.status), (lit "source", countTree m.source),
    (lit "gpu_samples", countTree m.gpuSamples),
    (lit "gpu_allocated_bytes", numberTree (if m.status = 1 then m.gpuEnd else .fin (-1))),
    (lit "gpu_allocated_sampled_peak_bytes",
      numberTree (if m.gpuSamples ≠ 0 then m.gpuPeak else .fin (-1))),
    (lit "gpu_sample_age_ms", numberTree m.gpuAgeMs),
    (lit "gpu_source",
      if m.source = 1 then quoteTree (lit "metal.MTLDevice.currentAllocatedSize")
      else nullTree),
    (lit "gpu_unavailable_reason",
      if m.status = 1 then nullTree
      else quoteTree (reasons.getD (if m.status ≤ 4 then m.status else 0) [])),
    (lit "unified_memory", if m.source = 1 then truthTree m.unified else nullTree),
    (lit "process_physical_footprint_bytes", nullTree),
    (lit "total_unique_physical_bytes", nullTree)]

/-- The members in front of the engine. -/
def headMembers (r : PerfRecord) : List (Bytes × Tree) :=
  [(lit "schema", .prim (if r.schema = 1 then lit "1" else lit "2")),
    (lit "reasoning", truthTree r.reasoning)]

/-- The member that schema 1 does not have. -/
def engineMember (r : PerfRecord) : List (Bytes × Tree) :=
  if r.schema ≠ 1 then [(lit "engine", .obj (engineMembers r.engine))] else []

/-- The members behind the engine. -/
def tailMembers (r : PerfRecord) : List (Bytes × Tree) :=
  [(lit "id", quoteTree r.id), (lit "model", quoteTree r.model),
    (lit "artifact", quoteTree r.artifact), (lit "quantization", quoteTree r.quantization),
    (lit "series", quoteTree r.series), (lit "backend", quoteTree r.backend),
    (lit "source", quoteTree r.source), (lit "outcome", quoteTree r.outcome),
    (lit "finish", quoteTree r.finish), (lit "run", quoteTree r.run),
    (lit "timestamp", numberTree r.timestamp),
    (lit "generation_ns", numberTree r.generationNs),
    (lit "first_ns", numberTree r.firstNs),
    (lit "first_answer_ns", numberTree r.firstAnswerNs),
    (lit "total_ns", numberTree r.totalNs), (lit "prefill_ns", numberTree r.prefillNs),
    (lit "load_ns", numberTree r.loadNs), (lit "rss", numberTree r.rss),
    (lit "peak_rss", numberTree r.peakRss), (lit "cpu_percent", numberTree r.cpuPercent),
    (lit "temperature", numberTree r.temperature), (lit "top_p", numberTree r.topP),
    (lit "input", countTree r.input), (lit "output", countTree r.output),
    (lit "reused", countTree r.reused), (lit "max_tokens", countTree r.maxTokens),
    (lit "threads", countTree r.threads), (lit "samples", countTree r.samples),
    (lit "sample_interval_ms", .prim (lit "2000")), (lit "cold", truthTree r.cold),
    (lit "contention", truthTree r.contention), (lit "warmup", truthTree r.warmup),
    (lit "gpu_memory", nullTree),
    (lit "unavailable_reason", .str (lit "legacy_field_use_memory_scopes")),
    (lit "memory", .obj (memoryMembers r.memory r.rss r.peakRss r.samples))]

def recordMembers (r : PerfRecord) : List (Bytes × Tree) :=
  headMembers r ++ (engineMember r ++ tailMembers r)

/-! ## The texts are theirs -/

theorem printMembers_behind (k : String) (t : Tree) (ms : List (Bytes × Tree)) :
    printMembers [44] ((lit k, t) :: ms) = member k t.print ++ printMembers [44] ms := by
  have hcomma : lit ",\"" = [44, 34] := rfl
  have hcolon : lit "\":" = [34, 58] := rfl
  rw [printMembers, member, hcomma, hcolon]
  simp only [List.append_assoc, List.cons_append, List.nil_append]

theorem printMembers_append (ms ns : List (Bytes × Tree)) :
    printMembers [44] (ms ++ ns) = printMembers [44] ms ++ printMembers [44] ns := by
  induction ms with
  | nil => rfl
  | cons m ms ih =>
      obtain ⟨key, t⟩ := m
      rw [List.cons_append, printMembers, printMembers, ih]
      simp only [List.append_assoc, List.cons_append]

theorem printMembers_nil (sep : Bytes) : printMembers sep [] = [] := by
  rw [printMembers]

theorem print_obj (k : String) (t : Tree) (ms : List (Bytes × Tree)) :
    (Tree.obj ((lit k, t) :: ms)).print =
      lit "\x7b\"" ++ lit k ++ lit "\":" ++ t.print ++ printMembers [44] ms ++ lit "\x7d" := by
  have hopen : lit "\x7b\"" = [123, 34] := rfl
  have hcolon : lit "\":" = [34, 58] := rfl
  have hclose : lit "\x7d" = [125] := rfl
  rw [Tree.print, printMembers, hopen, hcolon, hclose]
  simp only [List.append_assoc, List.cons_append, List.nil_append]

@[simp] theorem print_quoteTree (s : CStr) : (quoteTree s).print = appQuote s := rfl

@[simp] theorem print_nullTree : nullTree.print = lit "null" := rfl

@[simp] theorem print_valueTree (s : CStr) : (valueTree s).print = value s := by
  rw [valueTree, value]
  split
  · rfl
  · rfl

@[simp] theorem print_numberTree (n : Double) : (numberTree n).print = number n := rfl

@[simp] theorem print_truthTree (b : Bool) : (truthTree b).print = truth b := rfl

@[simp] theorem print_countTree (n : Nat) : (countTree n).print = decimal n := rfl

@[simp] theorem print_prim (s : Bytes) : (Tree.prim s).print = s := rfl

theorem print_ite (p : Prop) [Decidable p] (t u : Tree) :
    (if p then t else u).print = if p then t.print else u.print := by
  split
  · rfl
  · rfl

theorem appEngineJson_eq (e : Perf.AppEngine) : appEngineJson e = (Tree.obj (engineMembers e)).print := by
  have hfront : lit "\x7b\"geistlib\":\x7b\"version\":" =
      lit "\x7b\"" ++ lit "geistlib" ++ lit "\":" ++ (lit "\x7b\"" ++ lit "version" ++
        lit "\":") := rfl
  rw [appEngineJson, hfront, engineMembers, print_obj, libMembers, print_obj]
  simp only [printMembers_behind, printMembers_nil, print_ite, print_quoteTree, print_nullTree,
    print_valueTree, List.append_assoc, List.append_nil]

theorem appMemoryJson_eq (m : MemoryRecord) (rss peakRss : Double) (n : Nat) :
    appMemoryJson m rss peakRss n = (Tree.obj (memoryMembers m rss peakRss n)).print := by
  have hfront : lit "\x7b\"process_generation\":" =
      lit "\x7b\"" ++ lit "process_generation" ++ lit "\":" := rfl
  unfold appMemoryJson memoryMembers
  rw [print_obj]
  simp only [hfront, printMembers_behind, printMembers_nil, print_ite, print_quoteTree, print_nullTree,
    print_valueTree, print_numberTree, print_countTree, print_truthTree, print_prim,
    List.append_assoc, List.append_nil]

/-- A line is the text of an object, and a newline. -/
theorem recordJson_eq (r : PerfRecord) :
    recordJson r = (Tree.obj (recordMembers r)).print ++ [newline] := by
  have hfront : lit "\x7b\"schema\":" = lit "\x7b\"" ++ lit "schema" ++ lit "\":" := rfl
  have hback : lit "\x7d\n" = lit "\x7d" ++ [newline] := rfl
  have hreason : lit "\"legacy_field_use_memory_scopes\"" =
      (Tree.str (lit "legacy_field_use_memory_scopes")).print := rfl
  have hengine : (if r.schema ≠ 1 then member "engine" (appEngineJson r.engine) else []) =
      printMembers [44] (engineMember r) := by
    rw [engineMember]
    split
    · rw [printMembers_behind, appEngineJson_eq, printMembers_nil, List.append_nil]
    · rfl
  unfold recordJson recordMembers headMembers tailMembers
  rw [List.cons_append, print_obj]
  simp only [hengine, appMemoryJson_eq, printMembers_append, hfront, hback, hreason, printMembers_behind, printMembers_nil, print_quoteTree, print_nullTree,
    print_numberTree, print_countTree, print_truthTree, print_prim,
    List.append_assoc, List.append_nil]

/-! ## They are well formed -/

/-- A text without quotes, backslashes and NULs. -/
def bare (s : Bytes) : Bool := s.all fun c => decide (c ≠ 0 ∧ c ≠ 34 ∧ c ≠ 92)

theorem bare_quotable {s : Bytes} (h : bare s = true) : Quotable s :=
  quotable_plain fun c hc => of_decide_eq_true (List.all_eq_true.mp h c hc)

theorem quoteTree_valid (s : CStr) : (quoteTree s).Valid := by
  rw [quoteTree, Tree.Valid]
  exact (Escapes.flatMap gdEscape_escapes s).1

theorem isPrim_null : IsPrim (lit "null") := by
  constructor
  · exact ⟨110, rfl, by decide⟩
  · decide

theorem nullTree_valid : nullTree.Valid := by
  rw [nullTree, Tree.Valid]
  exact isPrim_null

theorem valueTree_valid (s : CStr) : (valueTree s).Valid := by
  rw [valueTree]
  split
  · exact nullTree_valid
  · exact quoteTree_valid s

theorem isPrim_number (n : Double) : IsPrim (number n) := by
  rw [number.eq_def]
  split
  · split
    · exact isPrim_null
    · exact (written_general (by decide) _).isPrim
  · exact isPrim_null

theorem numberTree_valid (n : Double) : (numberTree n).Valid := by
  rw [numberTree, Tree.Valid]
  exact isPrim_number n

theorem truthTree_valid (b : Bool) : (truthTree b).Valid := by
  rw [truthTree, Tree.Valid]
  cases b with
  | false => exact ⟨⟨102, rfl, by decide⟩, by decide⟩
  | true => exact ⟨⟨116, rfl, by decide⟩, by decide⟩

theorem decimal_isDigit (n : Nat) : ∀ c ∈ decimal n, isDigit c = true := by
  intro c hc
  have h := decimal_bytes n c hc
  rw [isDigit, decide_eq_true_eq, UInt8.le_iff_toNat_le, UInt8.le_iff_toNat_le]
  exact h

theorem decimal_ne_nil (n : Nat) : decimal n ≠ [] := by
  rw [decimal]
  split
  · exact List.cons_ne_nil _ _
  · next h =>
      intro hnil
      have hlen := congrArg List.length hnil
      rw [List.length_map, List.length_reverse, List.length_nil, List.length_eq_zero_iff] at hlen
      exact h (Nat.digits_eq_nil_iff_eq_zero.mp hlen)

theorem countTree_valid (n : Nat) : (countTree n).Valid := by
  rw [countTree, Tree.Valid]
  exact (written_digits (decimal_isDigit n) (decimal_ne_nil n)).isPrim

theorem valid_ite {p : Prop} [Decidable p] {t u : Tree} (ht : t.Valid) (hu : u.Valid) :
    (if p then t else u).Valid := by
  split
  · exact ht
  · exact hu

theorem validMembers_iff {ms : List (Bytes × Tree)} :
    ValidMembers ms ↔ ∀ m ∈ ms, Quotable m.1 ∧ m.2.Valid := by
  induction ms with
  | nil => exact ⟨fun _ m hm => absurd hm List.not_mem_nil, fun _ => trivial⟩
  | cons m ms ih =>
      obtain ⟨key, t⟩ := m
      rw [ValidMembers, ih, List.forall_mem_cons, and_assoc]

/-- Keys that are bare, and trees that are well formed. -/
theorem validMembers_of {ms : List (Bytes × Tree)} (hkeys : (ms.map Prod.fst).all bare = true)
    (hms : ∀ m ∈ ms, m.2.Valid) : ValidMembers ms :=
  validMembers_iff.mpr fun m hm =>
    ⟨bare_quotable (List.all_eq_true.mp hkeys _ (List.mem_map_of_mem hm)), hms m hm⟩

theorem libMembers_valid (e : Perf.AppEngine) : ValidMembers (libMembers e) := by
  refine validMembers_of rfl ?_
  simp only [libMembers, List.forall_mem_cons, valueTree_valid, quoteTree_valid, true_and]
  exact fun t ht => absurd ht List.not_mem_nil

theorem engineMembers_valid (e : Perf.AppEngine) : ValidMembers (engineMembers e) := by
  have hlib : (Tree.obj (libMembers e)).Valid := by
    rw [Tree.Valid]
    exact libMembers_valid e
  refine validMembers_of rfl ?_
  simp only [engineMembers, List.forall_mem_cons, valueTree_valid, hlib,
    valid_ite (quoteTree_valid _) nullTree_valid, true_and]
  exact fun t ht => absurd ht List.not_mem_nil

theorem memoryMembers_valid (m : MemoryRecord) (rss peakRss : Double) (n : Nat) :
    ValidMembers (memoryMembers m rss peakRss n) := by
  have hinterval : (Tree.prim (lit "2000")).Valid := by
    rw [Tree.Valid]
    exact ⟨⟨50, rfl, by decide⟩, by decide⟩
  refine validMembers_of rfl ?_
  simp only [memoryMembers, List.forall_mem_cons, valueTree_valid, numberTree_valid,
    quoteTree_valid, countTree_valid, nullTree_valid, hinterval,
    valid_ite nullTree_valid (quoteTree_valid _), valid_ite (quoteTree_valid _) nullTree_valid,
    valid_ite (truthTree_valid _) nullTree_valid, true_and]
  exact fun t ht => absurd ht List.not_mem_nil

theorem tailMembers_valid (r : PerfRecord) : ValidMembers (tailMembers r) := by
  have hinterval : (Tree.prim (lit "2000")).Valid := by
    rw [Tree.Valid]
    exact ⟨⟨50, rfl, by decide⟩, by decide⟩
  have hreason : (Tree.str (lit "legacy_field_use_memory_scopes")).Valid := by
    rw [Tree.Valid]
    exact bare_quotable rfl
  have hmemory : (Tree.obj (memoryMembers r.memory r.rss r.peakRss r.samples)).Valid := by
    rw [Tree.Valid]
    exact memoryMembers_valid _ _ _ _
  refine validMembers_of rfl ?_
  simp only [tailMembers, List.forall_mem_cons, quoteTree_valid, numberTree_valid,
    countTree_valid, truthTree_valid, nullTree_valid, hinterval, hreason, hmemory, true_and]
  exact fun t ht => absurd ht List.not_mem_nil

theorem recordMembers_valid (r : PerfRecord) : ValidMembers (recordMembers r) := by
  have hschema : (Tree.prim (if r.schema = 1 then lit "1" else lit "2")).Valid := by
    rw [Tree.Valid]
    split
    · exact ⟨⟨49, rfl, by decide⟩, by decide⟩
    · exact ⟨⟨50, rfl, by decide⟩, by decide⟩
  have hhead : ValidMembers (headMembers r) := by
    refine validMembers_of rfl ?_
    simp only [headMembers, List.forall_mem_cons, hschema, truthTree_valid, true_and]
    exact fun t ht => absurd ht List.not_mem_nil
  have hengine : ValidMembers (engineMember r) := by
    rw [engineMember]
    split
    · rw [ValidMembers, Tree.Valid]
      exact ⟨bare_quotable rfl, engineMembers_valid _, trivial⟩
    · trivial
  exact validMembers_append hhead (validMembers_append hengine (tailMembers_valid r))

/-! ## They have few tokens -/

theorem countMembers_append (ms ns : List (Bytes × Tree)) :
    countMembers (ms ++ ns) = countMembers ms + countMembers ns := by
  induction ms with
  | nil => rw [List.nil_append, countMembers, Nat.zero_add]
  | cons m ms ih =>
      obtain ⟨key, t⟩ := m
      rw [List.cons_append, countMembers, countMembers, ih]
      omega

theorem count_ite {p : Prop} [Decidable p] {t u : Tree} (ht : t.count = 1) (hu : u.count = 1) :
    (if p then t else u).count = 1 := by
  split
  · exact ht
  · exact hu

@[simp] theorem quoteTree_count (s : CStr) : (quoteTree s).count = 1 := by
  rw [quoteTree, Tree.count]

@[simp] theorem nullTree_count : nullTree.count = 1 := by
  rw [nullTree, Tree.count]

@[simp] theorem valueTree_count (s : CStr) : (valueTree s).count = 1 := by
  rw [valueTree]
  exact count_ite nullTree_count (quoteTree_count s)

@[simp] theorem numberTree_count (n : Double) : (numberTree n).count = 1 := by
  rw [numberTree, Tree.count]

@[simp] theorem truthTree_count (b : Bool) : (truthTree b).count = 1 := by
  rw [truthTree, Tree.count]

@[simp] theorem countTree_count (n : Nat) : (countTree n).count = 1 := by
  rw [countTree, Tree.count]

theorem engineMember_count (r : PerfRecord) : countMembers (engineMember r) ≤ 20 := by
  rw [engineMember]
  split
  · simp only [countMembers, Tree.count, engineMembers, libMembers, quoteTree_count,
      valueTree_count, count_ite (quoteTree_count _) nullTree_count]
    omega
  · rw [countMembers]
    omega

theorem memoryMembers_count (m : MemoryRecord) (rss peakRss : Double) (n : Nat) :
    countMembers (memoryMembers m rss peakRss n) = 40 := by
  simp only [countMembers, Tree.count, memoryMembers, quoteTree_count, valueTree_count,
    numberTree_count, countTree_count, nullTree_count,
    count_ite nullTree_count (quoteTree_count _), count_ite (quoteTree_count _) nullTree_count,
    count_ite (truthTree_count _) nullTree_count]

theorem tailMembers_count (r : PerfRecord) : countMembers (tailMembers r) = 110 := by
  simp only [tailMembers, countMembers, Tree.count, quoteTree_count, numberTree_count,
    countTree_count, truthTree_count, nullTree_count, memoryMembers_count]

theorem recordMembers_count (r : PerfRecord) :
    (Tree.obj (recordMembers r)).count ≤ JSON_TOK_CAP := by
  have hengine := engineMember_count r
  have hhead : countMembers (headMembers r) = 4 := by
    simp only [headMembers, countMembers, Tree.count, truthTree_count]
  have hcap : JSON_TOK_CAP = 4096 := rfl
  rw [Tree.count, recordMembers, countMembers_append, countMembers_append, hhead,
    tailMembers_count, hcap]
  omega

/-- A line is taken by `json_parse`. -/
theorem recordJson_parses (r : PerfRecord) :
    ∃ j, jsonParse (recordJson r) = some j ∧ Shows j 0 (.obj (recordMembers r)) := by
  have hspaced : Spaced (recordJson r) (Tree.obj (recordMembers r)).print := by
    have hnewline : Spaced [newline] [] := .space (by decide) .nil
    have h := (Tree.obj (recordMembers r)).spaced hnewline
      (by rw [Tree.Valid]; exact recordMembers_valid r) (fun h => by cases h)
    rwa [List.append_nil, ← recordJson_eq] at h
  obtain ⟨j, hj, _, hshows⟩ :=
    ObjectText.parse ⟨recordMembers_valid r, hspaced⟩ (recordMembers_count r)
  exact ⟨j, hj, hshows⟩

/-! ## What the readers find -/

/-- `json_num` of a primitive. -/
def numOf (raw : Bytes) (dflt : Double) : Double :=
  match raw with
  | c :: s => if c = 45 ∨ (48 ≤ c ∧ c ≤ 57) then strtod (c :: s) else dflt
  | [] => dflt

/-- What is left of a number: below zero it is unknown. -/
def orElse (dflt : Double) : Double → Double
  | .fin q => if q < 0 then dflt else .fin q
  | _ => dflt

theorem numOf_written {raw : Bytes} (h : Json.Written raw) (dflt : Double) :
    numOf raw dflt = strtod raw := by
  obtain ⟨⟨c, hc, hdigit⟩, _⟩ := h
  cases raw with
  | nil => cases hc
  | cons c' s =>
      obtain rfl := Option.some.inj hc
      exact if_pos (.inr (of_decide_eq_true hdigit))

theorem numOf_null (dflt : Double) : numOf (lit "null") dflt = dflt := by
  have hnull : lit "null" = [110, 117, 108, 108] := rfl
  rw [hnull, numOf]
  exact if_neg (by decide)

theorem numOf_number {n : Double} (hn : IsDouble n) (dflt : Double) :
    numOf (number n) dflt = orElse dflt n := by
  cases n with
  | fin q =>
      simp only [number, orElse]
      split
      · exact numOf_null dflt
      · next hq =>
          rw [numOf_written (written_general (by decide) q)]
          exact strtod_general (not_lt.mp hq) hn
  | inf neg => exact numOf_null dflt
  | nan => exact numOf_null dflt

/-- The digits of a count are worth it. -/
theorem ofDigits_decimal (n : Nat) : ofDigits (decimal n) = n := by
  have hfold : ∀ s : Bytes,
      ofDigits s = Nat.ofDigits 10 (s.map fun b => b.toNat - 48).reverse := by
    intro s
    induction s using List.reverseRecOn with
    | nil => rfl
    | append_singleton s c ih =>
        rw [ofDigits_concat, ih, List.map_append, List.reverse_append, List.map_singleton,
          List.reverse_singleton, List.singleton_append, Nat.ofDigits_cons]
        exact Nat.add_comm _ _
  rw [hfold, decimal_value]

theorem numOf_decimal {n : Nat} (hn : n < 2 ^ 53) (dflt : Double) :
    numOf (decimal n) dflt = .fin n := by
  have hwritten := written_digits (decimal_isDigit n) (decimal_ne_nil n)
  have hlt : ofDigits (decimal n) < 2 ^ 53 := by rwa [ofDigits_decimal]
  rw [numOf_written hwritten, strtod_digits (decimal_isDigit n) (decimal_ne_nil n) hlt,
    ofDigits_decimal]

theorem readCount_nat (n : Nat) :
    readCount (.fin n) = if n ≤ 1000000 then some n else none := by
  have hle : (n : ℚ) ≤ 1000000 ↔ n ≤ 1000000 := by exact_mod_cast Iff.rfl
  have hint : (n : ℚ).floor = n := by
    have h := Rat.floor_intCast (n : ℤ)
    rwa [Int.cast_natCast] at h
  have hfloor : ((n : ℚ).floor : ℚ) = n := by
    rw [hint]
    norm_cast
  have hnat : (n : ℚ).floor.toNat = n := by
    rw [hint]
    exact Int.toNat_natCast n
  rw [readCount, hfloor, hnat]
  by_cases h : n ≤ 1000000
  · rw [if_pos h, if_pos ⟨Nat.cast_nonneg n, hle.mpr h, rfl⟩]
  · rw [if_neg h, if_neg fun h' => h (hle.mp h'.2.1)]

section
variable {j : Doc} {i cap : Nat} {ms : List (Bytes × Tree)} {key : String}

theorem readText_member {s : CStr} (h : Shows j i (.obj ms))
    (hl : lookup (lit key) ms = some (quoteTree s)) (hs : CString cap s) :
    readText j i cap key = some s := by
  rw [readText, strdup_member h hl, (Escapes.flatMap gdEscape_escapes s).2, takeWhile_self hs.2]
  exact if_pos (decide_eq_true hs.1)

theorem prim_member {raw : Bytes} (h : Shows j i (.obj ms))
    (hl : lookup (lit key) ms = some (.prim raw)) :
    j.prim? (j.get i (lit key)) = some raw := by
  rcases h.found (lit key) with ⟨hnone, _⟩ | ⟨w, k, hw, hk, hshows⟩
  · cases hnone.symm.trans hl
  · cases hw.symm.trans hl
    obtain ⟨t, ht, htype, htext⟩ := hshows.raw rfl
    rw [hk, Doc.prim?, Option.bind_some, ht]
    have hprim : (t.type == .primitive) = true := beq_iff_eq.mpr htype
    rw [Option.filter_some, if_pos hprim, Option.map_some, htext]

theorem num_member {raw : Bytes} (h : Shows j i (.obj ms))
    (hl : lookup (lit key) ms = some (.prim raw)) (dflt : Double) :
    j.num (j.get i (lit key)) dflt = numOf raw dflt := by
  rw [Doc.num, prim_member h hl]
  cases raw with
  | nil => rfl
  | cons c s => rfl

theorem number_member {n : Double} (h : Shows j i (.obj ms))
    (hl : lookup (lit key) ms = some (numberTree n)) (hn : IsDouble n) (dflt : Double) :
    j.num (j.get i (lit key)) dflt = orElse dflt n := by
  rw [num_member h hl, numOf_number hn]

theorem count_member {n : Nat} (h : Shows j i (.obj ms))
    (hl : lookup (lit key) ms = some (countTree n)) (hn : n < 2 ^ 53) (dflt : Double) :
    readCount (j.num (j.get i (lit key)) dflt) = if n ≤ 1000000 then some n else none := by
  rw [num_member h hl, numOf_decimal hn, readCount_nat]

theorem truth_member {b : Bool} (h : Shows j i (.obj ms))
    (hl : lookup (lit key) ms = some (truthTree b)) (dflt : Bool) :
    j.bool (j.get i (lit key)) dflt = b := by
  rw [Doc.bool, prim_member h hl]
  cases b with
  | false => rfl
  | true => rfl

theorem null_member (h : Shows j i (.obj ms)) (hl : lookup (lit key) ms = some nullTree) :
    j.strdup (j.get i (lit key)) = none ∧ j.bool (j.get i (lit key)) false = false := by
  constructor
  · rcases h.found (lit key) with ⟨hnone, _⟩ | ⟨w, k, hw, hk, hshows⟩
    · cases hnone.symm.trans hl
    · cases hw.symm.trans hl
      rw [hk, hshows.strdup]
      rfl
  · rw [Doc.bool, prim_member h hl]
    rfl

theorem object_member {ns : List (Bytes × Tree)} (h : Shows j i (.obj ms))
    (hl : lookup (lit key) ms = some (.obj ns)) :
    ∃ k, j.get i (lit key) = some k ∧ isObject j k = true ∧ Shows j k (.obj ns) := by
  rcases h.found (lit key) with ⟨hnone, _⟩ | ⟨w, k, hw, hk, hshows⟩
  · cases hnone.symm.trans hl
  · cases hw.symm.trans hl
    obtain ⟨t, ht, htype, _⟩ := hshows.tok
    refine ⟨k, hk, ?_, hshows⟩
    rw [isObject, ht, Option.any_some]
    exact beq_iff_eq.mpr htype

/-- A byte of a plain token that needs no escape. -/
def cleanByte (c : UInt8) : Bool := decide (32 ≤ c ∧ c ≤ 126 ∧ c ≠ 34 ∧ c ≠ 92)

theorem cleanByte_escape {c : UInt8} (h : cleanByte c = true) :
    gdEscape c = [c] ∧ plainByte c = true := by
  obtain ⟨hlo, hhi, hquote, hslash⟩ := of_decide_eq_true h
  constructor
  · rw [gdEscape, if_neg (fun h => h.elim hquote hslash), if_neg (UInt8.not_lt.mpr hlo)]
  · exact decide_eq_true ⟨hlo, hhi, hslash⟩

theorem flatMap_clean {s : CStr} (h : ∀ c ∈ s, cleanByte c = true) : s.flatMap gdEscape = s := by
  induction s with
  | nil => rfl
  | cons c s ih =>
      rw [List.flatMap_cons, (cleanByte_escape (h c (List.mem_cons_self ..))).1,
        ih fun c hc => h c (List.mem_cons_of_mem _ hc)]
      rfl

theorem field_quoted {s : CStr} (h : Shows j i (.obj ms))
    (hl : lookup (lit key) ms = some (quoteTree s)) (hs : CString cap s)
    (hclean : ∀ c ∈ s, cleanByte c = true) : field cap j (some i) key = some s := by
  have htext := readText_member h hl hs
  rcases h.found (lit key) with ⟨hnone, _⟩ | ⟨w, k, hw, hk, hshows⟩
  · cases hnone.symm.trans hl
  · cases hw.symm.trans hl
    obtain ⟨t, ht, htype, hraw⟩ := hshows.raw rfl
    have hstr : t.type = .string := htype
    have hplain : (j.text t).all plainByte = true := by
      rw [hraw, flatMap_clean hclean]
      exact List.all_eq_true.mpr fun c hc => (cleanByte_escape (hclean c hc)).2
    rw [readText, hk] at htext
    rw [field, under, Option.bind_some, hk, Option.bind_some, ht]
    dsimp only
    rw [if_neg (fun h => by rw [hstr] at h; cases h.1), if_neg (fun h => h hstr), hplain]
    exact htext

theorem field_member {s : CStr} (h : Shows j i (.obj ms))
    (hl : lookup (lit key) ms = some (valueTree s)) (hs : CString cap s)
    (hclean : ∀ c ∈ s, cleanByte c = true) : field cap j (some i) key = some s := by
  rw [valueTree] at hl
  split at hl
  · next hempty =>
      rcases h.found (lit key) with ⟨hnone, _⟩ | ⟨w, k, hw, hk, hshows⟩
      · cases hnone.symm.trans hl
      · cases hw.symm.trans hl
        obtain ⟨t, ht, htype, hraw⟩ := hshows.raw rfl
        rw [field, under, Option.bind_some, hk, Option.bind_some, ht]
        dsimp only
        rw [if_pos ⟨htype, hraw⟩, List.isEmpty_iff.mp hempty]
  · exact field_quoted h hl hs hclean

theorem generation_member {s : CStr} (h : Shows j i (.obj ms))
    (hl : lookup (lit key) ms = some (valueTree s)) (hs : (0 : UInt8) ∉ s) :
    (j.strdup (j.get i (lit key))).getD [] = s := by
  rw [valueTree] at hl
  split at hl
  · next hempty =>
      rw [(null_member h hl).1, List.isEmpty_iff.mp hempty]
      rfl
  · rw [strdup_member h hl, (Escapes.flatMap gdEscape_escapes s).2, takeWhile_self hs]
    rfl

end

/-! ## The engine -/

/-- An engine without a source state is written as one whose state is unknown. -/
def restoredEngine (e : Perf.AppEngine) : Perf.AppEngine :=
  { e with sourceState := if e.sourceState.isEmpty then lit "unknown" else e.sourceState }

theorem hex_clean {s : CStr} (h : s.isEmpty = true ∨ hex s = true) :
    ∀ c ∈ s, cleanByte c = true := by
  intro c hc
  rcases h with h | h
  · rw [List.isEmpty_iff.mp h] at hc
    cases hc
  · have hcase := List.all_eq_true.mp h c hc
    simp only [Bool.or_eq_true, decide_eq_true_eq, UInt8.le_iff_toNat_le,
      UInt8.reduceToNat] at hcase
    simp only [cleanByte, decide_eq_true_eq, UInt8.le_iff_toNat_le, ne_eq, ← UInt8.toNat_inj,
      UInt8.reduceToNat]
    omega

theorem versionChar_clean {c : UInt8} (h : versionChar c = true) : cleanByte c = true := by
  have hmarks : (lit ".-+_") = [46, 45, 43, 95] := rfl
  rw [versionChar, hmarks, List.contains_eq_mem] at h
  simp only [Bool.or_eq_true, decide_eq_true_eq, List.mem_cons, List.not_mem_nil, or_false,
    UInt8.le_iff_toNat_le, UInt8.reduceToNat] at h
  rcases h with ((h | h) | h) | rfl | rfl | rfl | rfl
  case inr.inl | inr.inr.inl | inr.inr.inr.inl | inr.inr.inr.inr => decide
  all_goals
    simp only [cleanByte, decide_eq_true_eq, UInt8.le_iff_toNat_le, ne_eq, ← UInt8.toNat_inj,
      UInt8.reduceToNat]
    omega

theorem state_clean {s : CStr} (h : s.isEmpty = true ∨ s = lit "clean" ∨ s = lit "modified" ∨
    s = lit "unknown") : ∀ c ∈ s, cleanByte c = true := by
  rcases h with h | rfl | rfl | rfl
  · rw [List.isEmpty_iff.mp h]
    exact fun c hc => absurd hc List.not_mem_nil
  · decide
  · decide
  · decide

/-- `app_engine_valid`, test by test. -/
structure SoundEngine (e : Perf.AppEngine) : Prop where
  stateFits : e.sourceState.length < 16
  clean : ¬ (e.sourceState = lit "clean" ∧ e.revision.isEmpty = true)
  versionFits : e.version.length < 64
  revision : e.revision.isEmpty = true ∨
    (e.revision.length = 40 ∨ e.revision.length = 64) ∧ hex e.revision = true
  payload : e.payloadSha256.isEmpty = true ∨
    e.payloadSha256.length = 64 ∧ hex e.payloadSha256 = true
  version : ∀ c ∈ e.version, versionChar c = true
  state : e.sourceState.isEmpty = true ∨ e.sourceState = lit "clean" ∨
    e.sourceState = lit "modified" ∨ e.sourceState = lit "unknown"

theorem soundEngine_iff {e : Perf.AppEngine} : engineValid e = true ↔ SoundEngine e := by
  simp only [engineValid, Bool.and_eq_true, Bool.or_eq_true, Bool.not_eq_true',
    Bool.and_eq_false_iff, decide_eq_true_eq, decide_eq_false_iff_not, List.all_eq_true, and_assoc,
    or_assoc]
  constructor
  · rintro ⟨h₁, h₂, h₃, h₄, h₅, h₆, h₇⟩
    refine ⟨h₁, fun h => ?_, h₃, h₄, h₅, h₆, h₇⟩
    rcases h₂ with h₂ | h₂
    · exact h₂ h.1
    · rw [h.2] at h₂
      cases h₂
  · rintro ⟨h₁, h₂, h₃, h₄, h₅, h₆, h₇⟩
    refine ⟨h₁, ?_, h₃, h₄, h₅, h₆, h₇⟩
    by_cases hstate : e.sourceState = lit "clean"
    · exact .inr (Bool.eq_false_iff.mpr fun h => h₂ ⟨hstate, h⟩)
    · exact .inl hstate

theorem SoundEngine.restored {e : Perf.AppEngine} (h : SoundEngine e) :
    SoundEngine (restoredEngine e) := by
  rw [restoredEngine]
  split
  · have hfits : (lit "unknown").length < 16 := by decide
    have hclean : lit "unknown" ≠ lit "clean" := by decide
    exact { h with
      stateFits := hfits
      clean := fun h => hclean h.1
      state := .inr (.inr (.inr rfl)) }
  · exact h

theorem engine_read {j : Doc} {k : Nat} {e : Perf.AppEngine} (h : Shows j k (.obj (engineMembers e)))
    (he : SoundEngine e) (hversion : CString 64 e.version) (hrevision : CString 65 e.revision)
    (hstate : CString 16 e.sourceState) (hpayload : CString 65 e.payloadSha256)
    (hobject : isObject j k = true) : appEngineParse j (some k) = some (restoredEngine e) := by
  have hfound : lookup (lit "geistlib") (engineMembers e) = some (.obj (libMembers e)) := rfl
  obtain ⟨l, hl, hlib, hshows⟩ := object_member h hfound
  have h₁ : field 64 j (some l) "version" = some e.version :=
    field_member hshows rfl hversion fun c hc => versionChar_clean (he.version c hc)
  have h₂ : field 65 j (some l) "revision" = some e.revision :=
    field_member hshows rfl hrevision (hex_clean (he.revision.imp_right And.right))
  have h₃ : field 16 j (some l) "source_state" = some (restoredEngine e).sourceState := by
    refine field_quoted hshows rfl ?_ (state_clean he.restored.state)
    rw [restoredEngine]
    dsimp only
    split
    · decide
    · exact hstate
  have h₄ : field 65 j (some k) "payload_sha256" = some e.payloadSha256 :=
    field_member h rfl hpayload (hex_clean (he.payload.imp_right And.right))
  have hvalid : engineValid (restoredEngine e) = true := soundEngine_iff.mpr he.restored
  simp only [appEngineParse, hobject, hl, Option.any_some, hlib, h₁, h₂, h₃, h₄,
    Option.bind_some, Bool.not_true, Bool.false_eq_true, if_false]
  exact if_pos hvalid

/-! ## The memory -/

/-- What is left of a number that may be unknown. -/
def known (n : Double) : Double := orElse (.fin (-1)) n

/-- What comes back of the memory: `gpu_end` goes with the status, the peak with the
samples, `unified` with the source. The sequence is not written. -/
def restoredMemory (m : MemoryRecord) : MemoryRecord where
  generation := m.generation
  sampledAt := m.sampledAt
  gpuAgeMs := known m.gpuAgeMs
  gpuEnd := if m.status = 1 then known m.gpuEnd else .fin (-1)
  gpuPeak := if m.gpuSamples ≠ 0 then known m.gpuPeak else .fin (-1)
  rssAgeMs := known m.rssAgeMs
  gpuSamples := m.gpuSamples
  status := m.status
  source := m.source
  rssSource := m.rssSource
  unified := if m.source = 1 then m.unified else false

theorem within_fin {lo hi : ℚ} {n : Double} :
    Perf.within lo hi n = true ↔ ∃ q, n = .fin q ∧ lo ≤ q ∧ q ≤ hi := by
  cases n with
  | fin q =>
      rw [Perf.within, Bool.and_eq_true, decide_eq_true_eq, decide_eq_true_eq]
      constructor
      · intro h
        exact ⟨q, rfl, h⟩
      · rintro ⟨q', hq, h⟩
        exact Double.fin.inj hq ▸ h
  | inf neg | nan =>
      constructor
      · intro h
        cases h
      · rintro ⟨q, hq, _⟩
        cases hq

/-- A number within bounds that are not below -1 stays in them. -/
theorem within_known {hi : ℚ} {n : Double} (hhi : 0 ≤ hi) (h : Perf.within (-1) hi n = true) :
    Perf.within (-1) hi (known n) = true := by
  obtain ⟨q, rfl, hlo, hle⟩ := within_fin.mp h
  rw [known, orElse]
  split
  · exact within_fin.mpr ⟨-1, rfl, le_refl _, by linarith⟩
  · exact within_fin.mpr ⟨q, rfl, hlo, hle⟩

/-- A number that is not negative stays as it is. -/
theorem orElse_within {lo hi : ℚ} {n : Double} (hlo : 0 ≤ lo) (h : Perf.within lo hi n = true)
    (dflt : Double) : orElse dflt n = n := by
  obtain ⟨q, rfl, hq, _⟩ := within_fin.mp h
  exact if_neg (not_lt.mpr (le_trans hlo hq))

/-- `app_memory_valid`, test by test. -/
structure SoundMemory (m : MemoryRecord) : Prop where
  generation : m.generation.length < 112
  status : m.status ≤ 4
  source : m.source ≤ 1
  rssSource : m.rssSource ≤ 2
  gpuSamples : m.gpuSamples ≤ 1000000
  gpuEnd : Perf.within (-1) 1000000000000000 m.gpuEnd = true
  gpuPeak : Perf.within (-1) 1000000000000000 m.gpuPeak = true
  gpuAgeMs : Perf.within (-1) 1000000000000 m.gpuAgeMs = true
  rssAgeMs : Perf.within (-1) 1000000000000 m.rssAgeMs = true
  sampledAt : within 0 1000000000000 m.sampledAt = true
  sampled : m.gpuSamples = 0 ∨
    m.source = 1 ∧ within 0 1000000000000000 m.gpuPeak = true
  live : ¬ m.status = 1 ∨
    m.source = 1 ∧ within 0 1000000000000000 m.gpuEnd = true ∧ within 0 6000 m.gpuAgeMs = true

theorem soundMemory_iff {m : MemoryRecord} : memoryValid m = true ↔ SoundMemory m := by
  simp only [memoryValid, Bool.and_eq_true, Bool.or_eq_true, decide_eq_true_eq, and_assoc]
  constructor
  · rintro ⟨h₁, h₂, h₃, h₄, h₅, h₆, h₇, h₈, h₉, h₁₀, h₁₁, h₁₂⟩
    exact ⟨h₁, h₂, h₃, h₄, h₅, h₆, h₇, h₈, h₉, h₁₀, h₁₁, h₁₂⟩
  · rintro ⟨h₁, h₂, h₃, h₄, h₅, h₆, h₇, h₈, h₉, h₁₀, h₁₁, h₁₂⟩
    exact ⟨h₁, h₂, h₃, h₄, h₅, h₆, h₇, h₈, h₉, h₁₀, h₁₁, h₁₂⟩

theorem SoundMemory.restored {m : MemoryRecord} (h : SoundMemory m) :
    SoundMemory (restoredMemory m) := by
  have hunknown : Perf.within (-1) 1000000000000000 (.fin (-1)) = true := by decide
  constructor
  case generation => exact h.generation
  case status => exact h.status
  case source => exact h.source
  case rssSource => exact h.rssSource
  case gpuSamples => exact h.gpuSamples
  case sampledAt => exact h.sampledAt
  case gpuAgeMs => exact within_known (by norm_num) h.gpuAgeMs
  case rssAgeMs => exact within_known (by norm_num) h.rssAgeMs
  case gpuEnd =>
    rw [restoredMemory]
    dsimp only
    split
    · exact within_known (by norm_num) h.gpuEnd
    · exact hunknown
  case gpuPeak =>
    rw [restoredMemory]
    dsimp only
    split
    · exact within_known (by norm_num) h.gpuPeak
    · exact hunknown
  case sampled =>
    by_cases hzero : m.gpuSamples = 0
    · exact .inl hzero
    · obtain ⟨hsource, hpeak⟩ := h.sampled.resolve_left hzero
      refine .inr ⟨hsource, ?_⟩
      show within 0 _ (if m.gpuSamples ≠ 0 then known m.gpuPeak else _) = true
      rw [if_pos hzero, known, orElse_within (le_refl 0) hpeak]
      exact hpeak
  case live =>
    by_cases hlive : m.status = 1
    · obtain ⟨hsource, hend, hage⟩ := h.live.resolve_left (not_not.mpr hlive)
      refine .inr ⟨hsource, ?_, ?_⟩
      · show within 0 _ (if m.status = 1 then known m.gpuEnd else _) = true
        rw [if_pos hlive, known, orElse_within (le_refl 0) hend]
        exact hend
      · show within 0 6000 (known m.gpuAgeMs) = true
        rw [known, orElse_within (le_refl 0) hage]
        exact hage
    · exact .inl hlive

theorem orElse_unknown (dflt : Double) : orElse dflt (.fin (-1)) = dflt := by
  rw [orElse]
  exact if_pos (by norm_num)

theorem isDouble_neg_one : IsDouble (.fin (-1)) := by
  have habs : |(-1 : ℚ)| = 1 := by norm_num
  have hholds : DOUBLE.Holds 1 := by
    have h := Format.holds_nat (f := DOUBLE) (n := 1) (by decide) (by decide)
    rwa [Nat.cast_one] at h
  rw [IsDouble, habs]
  exact ⟨hholds, one_lt_pow₀ (by norm_num) (by norm_num)⟩

theorem isDouble_ite {p : Prop} [Decidable p] {n : Double} (hn : IsDouble n) :
    IsDouble (if p then n else .fin (-1)) := by
  split
  · exact hn
  · exact isDouble_neg_one

theorem rssSource_read {n : Nat} (h : n ≤ 2) : rssSourceOf (some (rssSourceName n)) = n := by
  have hall : ∀ n ≤ 2, rssSourceOf (some (rssSourceName n)) = n := by decide
  exact hall n h

/-- The numbers of a memory record. -/
def MemoryRecord.numbers (m : MemoryRecord) : List Double :=
  [m.sampledAt, m.gpuAgeMs, m.gpuEnd, m.gpuPeak, m.rssAgeMs]

section
variable {j : Doc} {k n : Nat} {m : MemoryRecord} {rss peakRss : Double}

theorem memory_read (h : Shows j k (.obj (memoryMembers m rss peakRss n))) (hm : SoundMemory m)
    (hgeneration : CString 112 m.generation)
    (hdoubles : ∀ x ∈ MemoryRecord.numbers m, IsDouble x)
    (hobject : isObject j k = true) : appMemoryParse j (some k) = some (restoredMemory m) := by
  simp only [MemoryRecord.numbers, List.forall_mem_cons] at hdoubles
  obtain ⟨hsampled, hage, hend, hpeak, hrssAge, _⟩ := hdoubles
  have hgen : (j.strdup (j.get k (lit "process_generation"))).getD [] = m.generation :=
    generation_member h rfl hgeneration.2
  have hat : j.num (j.get k (lit "sampled_at")) (.fin 0) = m.sampledAt := by
    rw [number_member h rfl (isDouble_ite hsampled)]
    obtain ⟨q, hq, hlo, _⟩ := within_fin.mp hm.sampledAt
    rw [hq, Double.lt]
    by_cases hpos : 0 < q
    · rw [if_pos (decide_eq_true hpos)]
      exact if_neg (not_lt.mpr hlo)
    · rw [if_neg (by simpa using hpos)]
      have hzero : q = 0 := le_antisymm (not_lt.mp hpos) hlo
      rw [hzero]
      exact orElse_unknown _
  have hages : j.num (j.get k (lit "gpu_sample_age_ms")) (.fin (-1)) = known m.gpuAgeMs :=
    number_member h rfl hage _
  have hrssAges : j.num (j.get k (lit "process_rss_sample_age_ms")) (.fin (-1)) =
      known m.rssAgeMs := number_member h rfl hrssAge _
  have hends : j.num (j.get k (lit "gpu_allocated_bytes")) (.fin (-1)) =
      if m.status = 1 then known m.gpuEnd else .fin (-1) := by
    rw [number_member h rfl (isDouble_ite hend)]
    split
    · rfl
    · exact orElse_unknown _
  have hpeaks : j.num (j.get k (lit "gpu_allocated_sampled_peak_bytes")) (.fin (-1)) =
      if m.gpuSamples ≠ 0 then known m.gpuPeak else .fin (-1) := by
    rw [number_member h rfl (isDouble_ite hpeak)]
    split
    · rfl
    · exact orElse_unknown _
  have hrss : rssSourceOf (j.strdup (j.get k (lit "rss_source"))) = m.rssSource := by
    have hnul : (0 : UInt8) ∉ rssSourceName m.rssSource := by
      have hall : ∀ n ≤ 2, (0 : UInt8) ∉ rssSourceName n := by decide
      exact hall _ hm.rssSource
    have hl : lookup (lit "rss_source") (memoryMembers m rss peakRss n) =
        some (.str ((rssSourceName m.rssSource).flatMap gdEscape)) := rfl
    rw [strdup_member h hl, (Escapes.flatMap gdEscape_escapes _).2, takeWhile_self hnul,
      rssSource_read hm.rssSource]
  have hcount : ∀ (key : String) (c : Nat), c ≤ 1000000 →
      lookup (lit key) (memoryMembers m rss peakRss n) = some (countTree c) →
      readCount (j.num (j.get k (lit key)) (.fin 0)) = some c := by
    intro key c hc hl
    rw [count_member h hl (by omega), if_pos hc]
  have hstatus := hcount "status" m.status (by have := hm.status; omega) rfl
  have hsource := hcount "source" m.source (by have := hm.source; omega) rfl
  have hsamples := hcount "gpu_samples" m.gpuSamples hm.gpuSamples rfl
  have hunified : j.bool (j.get k (lit "unified_memory")) false =
      if m.source = 1 then m.unified else false := by
    have hl : lookup (lit "unified_memory") (memoryMembers m rss peakRss n) =
        some (if m.source = 1 then truthTree m.unified else nullTree) := rfl
    split at hl
    · next hone => rw [truth_member h hl, if_pos hone]
    · next hone => rw [(null_member h hl).2, if_neg hone]
  simp only [appMemoryParse, hobject, hgen, hat, hages, hrssAges, hends, hpeaks, hrss, hstatus,
    hsource, hsamples, hunified, Option.bind_some, Bool.not_true, Bool.false_eq_true, if_false]
  rw [if_neg (not_le.mpr hm.generation)]
  exact if_pos (soundMemory_iff.mpr hm.restored)

end

end GeistServe.Proofs
