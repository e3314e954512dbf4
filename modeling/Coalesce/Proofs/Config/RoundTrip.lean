import Coalesce.Config.Wire
import Coalesce.Proofs.Config.Spelling
import Coalesce.Proofs.Except

/-!
# Configurations written and read back

* `Config.Fits`             all numbers of a configuration lie within their words;
* `Options.read_respelled`, `TargetConfig.read_respelled`, `Config.read_respelled`
                            what is written is read back, whatever its spelling;
* `Config.spelling_kept`    so a configuration comes back from any spelling of its value, and is
                            found valid, and resolved, as before.

Each record is read slot by slot; a slot goes by all spellings of a name.
-/

namespace Coalesce

open Decode

/-! ## numbers -/

structure WaitOptions.Fits (w : WaitOptions) : Prop where
  queries : ∀ n ∈ w.queries, n ≤ Word.unsignedMax
  millis : ∀ n ∈ w.millis, n ≤ Word.unsignedMax

structure Options.Fits (o : Options) : Prop where
  maxSize : ∀ n ∈ o.maxSize, n ≤ Word.unsignedMax
  wait : o.wait.Fits

structure TargetConfig.Fits (t : TargetConfig) : Prop where
  timeoutMillis : ∀ n ∈ t.timeoutMillis, n ≤ Word.unsignedMax
  batching : ∀ o ∈ t.batching, o.Fits

/-- All numbers lie within their words. -/
structure Config.Fits (c : Config) : Prop where
  low : Word.signedMin ≤ c.padding
  high : c.padding ≤ Word.signedMax
  targets : ∀ t ∈ c.targets, t.Fits

namespace Json

theorem unsigned_nat {n : Nat} (fits : n ≤ Word.unsignedMax) :
    format.unsigned (document (.nat n)) = .ok n := by
  show ((if 0 ≤ (n : Int) ∧ (n : Int) ≤ Word.unsignedMax then Except.ok (n : Int)
    else .error (Fault.outOfRange n "u64")).map Int.toNat) = .ok n
  rw [if_pos ⟨Int.natCast_nonneg n, Int.ofNat_le.mpr fits⟩]
  rfl

theorem signed_int {i : Int} (low : Word.signedMin ≤ i) (high : i ≤ Word.signedMax) :
    format.signed (document (.int i)) = .ok i := by
  show (if Word.signedMin ≤ i ∧ i ≤ Word.signedMax then Except.ok i
    else .error (Fault.outOfRange i "i64")) = .ok i
  rw [if_pos ⟨low, high⟩]

/-! ## members that may be left out -/

section
variable {σ α : Type} {read : Document → Except Fault α} {wrap : α → Json} {found : Option α}
  {ms ns : List (String × Json)} {label name : String} {names : List String}

/-- What a slot holds whose member is null, or left out, where nothing is found. -/
theorem optional_respelled {kept : σ → Option (Option α)} {put : σ → Option (Option α) → σ}
    (other : name ≠ "strategy") (closed : Closed names)
    (written : (ms.filter fun m => m.1 ∈ names) = [(name, ofOption wrap found)])
    (respelled : MembersRespelled Respelled (Members.ofList ms) ns)
    (stands : ∀ a ∈ found, ∀ w, Respelled (wrap a) w → w ≠ .null)
    (reads : ∀ a ∈ found, ∀ w, Respelled (wrap a) w → read (document w) = .ok a) :
    ∃ x, FieldSlot.Filled ⟨label, names, Option α, format.optional read, kept, put⟩
        (named (Members.ofList ns)) none x ∧ x.getD none = found := by
  let F : FieldSlot σ Document := ⟨label, names, Option α, format.optional read, kept, put⟩
  have hread : ∀ w, ValueRespelled Respelled name (ofOption wrap found) w →
      F.read (document w) = .ok found := by
    intro w hw
    cases found with
    | none =>
      cases (hw.of_ne other).of_null
      rfl
    | some a =>
      have hspelled : Respelled (wrap a) w := hw.of_ne other
      exact optional_eq_ok.mpr (.inr ⟨stands a rfl w hspelled, a, reads a rfl w hspelled, rfl⟩)
  obtain ⟨x, hx, rfl | ⟨rfl, hnull⟩⟩ := filled_respelled F closed written respelled hread
  · exact ⟨some found, hx, rfl⟩
  · refine ⟨none, hx, ?_⟩
    cases found with
    | none => rfl
    | some a => exact absurd hnull (stands a rfl _ (.same _))

/-- The slot of an optional number. -/
theorem number_respelled {kept : σ → Option (Option Nat)} {put : σ → Option (Option Nat) → σ}
    {number : Option Nat} (fits : ∀ n ∈ number, n ≤ Word.unsignedMax)
    (other : name ≠ "strategy") (closed : Closed names)
    (written : (ms.filter fun m => m.1 ∈ names) = [(name, ofOption .nat number)])
    (respelled : MembersRespelled Respelled (Members.ofList ms) ns) :
    ∃ x, FieldSlot.Filled ⟨label, names, Option Nat, format.optional format.unsigned, kept, put⟩
        (named (Members.ofList ns)) none x ∧ x.getD none = number := by
  refine optional_respelled other closed written respelled (fun n _ w hw => ?_) fun n hn w hw => ?_
  · rw [hw.of_number]
    nofun
  · rw [hw.of_number]
    exact unsigned_nat (fits n hn)

end

end Json

/-! ## batching -/

namespace WaitOptions

def queriesSlot : FieldSlot Draft Json.Document :=
  ⟨"queries", ["queries"], Option Nat, Json.format.optional Json.format.unsigned, (·.queries),
    fun w x => { w with queries := x }⟩

def millisSlot : FieldSlot Draft Json.Document :=
  ⟨"millis", ["millis"], Option Nat, Json.format.optional Json.format.unsigned, (·.millis),
    fun w x => { w with millis := x }⟩

def slots : List (FieldSlot Draft Json.Document) := [queriesSlot, millisSlot]

theorem step_eq : step Json.format = FieldSlot.step slots := by
  funext w name d
  simp only [slots, queriesSlot, millisSlot, FieldSlot.step, List.mem_singleton]
  rfl

theorem slots_lawful : FieldSlot.Lawful slots where
  kept_put := by simp [slots, queriesSlot, millisSlot]
  apart := by simp [slots, queriesSlot, millisSlot]
  ext := by
    rintro ⟨_, _⟩ ⟨_, _⟩ same
    simpa [slots, queriesSlot, millisSlot] using same

theorem read_object {ms : List (String × Json)} (t : Draft)
    (filled : ∀ F ∈ slots, F.Filled (Json.named ms) (F.kept {}) (F.kept t)) :
    read Json.format (Json.document (.object ms))
      = .ok ⟨t.queries.getD none, t.millis.getD none⟩ := by
  have hfold : Parts.fold (step Json.format) {} ⟨Json.named ms, true⟩ = .ok t :=
    step_eq ▸ slots_lawful.fold_eq_ok.mpr ⟨rfl, filled⟩
  unfold read
  rw [Json.record_object]
  show (Parts.fold (step Json.format) {} ⟨Json.named ms, true⟩ >>= _) = _
  rw [hfold]
  rfl

theorem read_respelled {w : WaitOptions} (fits : w.Fits) {v : Json}
    (spelled : Json.Respelled w.toJson v) : read Json.format (Json.document v) = .ok w := by
  obtain ⟨ns, rfl, hns⟩ := spelled.of_object
  obtain ⟨queries, hqueries, same_queries⟩ : ∃ x : Option (Option Nat),
      queriesSlot.Filled (Json.named (Members.ofList ns)) none x ∧ x.getD none = w.queries :=
    Json.number_respelled fits.queries (by decide) (by decide) rfl hns
  obtain ⟨millis, hmillis, same_millis⟩ : ∃ x : Option (Option Nat),
      millisSlot.Filled (Json.named (Members.ofList ns)) none x ∧ x.getD none = w.millis :=
    Json.number_respelled fits.millis (by decide) (by decide) rfl hns
  have hread := read_object ⟨queries, millis⟩ (List.forall_mem_cons.mpr
    ⟨hqueries, List.forall_mem_singleton.mpr hmillis⟩)
  exact hread.trans (by rw [same_queries, same_millis])

end WaitOptions

namespace Json

theorem strategy_respelled {s : Strategy} {w : Json}
    (h : ValueRespelled Respelled "strategy" (.string s.name) w) :
    Strategy.read format (document w) = .ok s := by
  have hread : ∀ name, Strategy.ofName? name = some s →
      Strategy.read format (document (.string name)) = .ok s := by
    intro name hname
    show Document.known Strategy.ofName? (Strategy.names.map (·.1)) name = .ok s
    unfold Document.known
    rw [hname]
  cases h with
  | value h =>
    rw [h.of_string]
    exact hread s.name (by cases s <;> decide)
  | @strategy _ b other =>
    have hall : ∀ a ∈ strategyAliases, a.1 = s.name → Strategy.ofName? a.2 = some s := by
      cases s <;> decide
    exact hread b (hall _ other rfl)

theorem style_respelled {s : Style} {w : Json} (h : Respelled (.string s.name) w) :
    Style.read format (document w) = .ok s := by
  rw [h.of_string]
  cases s <;> rfl

end Json

namespace Options

def strategySlot : FieldSlot Draft Json.Document :=
  ⟨"strategy", ["strategy"], Strategy, Strategy.read Json.format, (·.strategy),
    fun o x => { o with strategy := x }⟩

def styleSlot : FieldSlot Draft Json.Document :=
  ⟨"style", ["style"], Style, Style.read Json.format, (·.style), fun o x => { o with style := x }⟩

def maxSizeSlot : FieldSlot Draft Json.Document :=
  ⟨"max_size", ["max_size", "maxSize"], Option Nat, Json.format.optional Json.format.unsigned,
    (·.maxSize), fun o x => { o with maxSize := x }⟩

def waitSlot : FieldSlot Draft Json.Document :=
  ⟨"wait", ["wait"], WaitOptions, WaitOptions.read Json.format, (·.wait),
    fun o x => { o with wait := x }⟩

def slots : List (FieldSlot Draft Json.Document) := [strategySlot, styleSlot, maxSizeSlot, waitSlot]

theorem step_eq : step Json.format = FieldSlot.step slots := by
  funext o name d
  simp only [slots, strategySlot, styleSlot, maxSizeSlot, waitSlot, FieldSlot.step, List.mem_cons,
    List.not_mem_nil, or_false]
  rfl

theorem slots_lawful : FieldSlot.Lawful slots where
  kept_put := by simp [slots, strategySlot, styleSlot, maxSizeSlot, waitSlot]
  apart := by simp [slots, strategySlot, styleSlot, maxSizeSlot, waitSlot]
  ext := by
    rintro ⟨_, _, _, _⟩ ⟨_, _, _, _⟩ same
    simpa [slots, strategySlot, styleSlot, maxSizeSlot, waitSlot] using same

theorem read_object {ms : List (String × Json)} (t : Draft) {strategy : Strategy}
    (filled : ∀ F ∈ slots, F.Filled (Json.named ms) (F.kept {}) (F.kept t))
    (found : t.strategy = some strategy) :
    read Json.format (Json.document (.object ms))
      = .ok ⟨strategy, t.style.getD .array, t.maxSize.getD none, t.wait.getD {}⟩ := by
  have hfold : Parts.fold (step Json.format) {} ⟨Json.named ms, true⟩ = .ok t :=
    step_eq ▸ slots_lawful.fold_eq_ok.mpr ⟨rfl, filled⟩
  unfold read
  rw [Json.record_object]
  show (Parts.fold (step Json.format) {} ⟨Json.named ms, true⟩ >>= _) = _
  rw [hfold]
  show (required "strategy" t.strategy >>= _) = _
  rw [found]
  rfl

theorem read_respelled {o : Options} (fits : o.Fits) {v : Json}
    (spelled : Json.Respelled o.toJson v) : read Json.format (Json.document v) = .ok o := by
  obtain ⟨ns, rfl, hns⟩ := spelled.of_object
  have hstrategy : strategySlot.Filled (Json.named (Members.ofList ns)) none (some o.strategy) :=
    Json.filled_of_some strategySlot (by decide) rfl hns nofun fun w => Json.strategy_respelled
  have hstyle : styleSlot.Filled (Json.named (Members.ofList ns)) none (some o.style) :=
    Json.filled_of_some styleSlot (by decide) rfl hns nofun fun w hw =>
      Json.style_respelled (hw.of_ne (by decide))
  obtain ⟨maxSize, hmaxSize, same_maxSize⟩ : ∃ x : Option (Option Nat),
      maxSizeSlot.Filled (Json.named (Members.ofList ns)) none x ∧ x.getD none = o.maxSize :=
    Json.number_respelled fits.maxSize (by decide) (by decide) rfl hns
  have hwait : waitSlot.Filled (Json.named (Members.ofList ns)) none (some o.wait) :=
    Json.filled_of_some waitSlot (by decide) rfl hns nofun fun w hw =>
      WaitOptions.read_respelled fits.wait (hw.of_ne (by decide))
  have hread := read_object ⟨some o.strategy, some o.style, maxSize, some o.wait⟩
    (List.forall_mem_cons.mpr ⟨hstrategy, List.forall_mem_cons.mpr ⟨hstyle,
      List.forall_mem_cons.mpr ⟨hmaxSize, List.forall_mem_singleton.mpr hwait⟩⟩⟩) rfl
  exact hread.trans (by rw [same_maxSize]; rfl)

theorem respelled_ne_null {o : Options} {v : Json} (spelled : Json.Respelled o.toJson v) :
    v ≠ .null := by
  obtain ⟨ns, rfl, _⟩ := spelled.of_object
  nofun

end Options

/-! ## targets -/

namespace TargetConfig

def nameSlot : FieldSlot Draft Json.Document :=
  ⟨"name", ["name"], String, Json.format.string, (·.name), fun t x => { t with name := x }⟩

def urlSlot : FieldSlot Draft Json.Document :=
  ⟨"url", ["url"], String, Json.format.string, (·.url), fun t x => { t with url := x }⟩

def timeoutSlot : FieldSlot Draft Json.Document :=
  ⟨"timeout_ms", ["timeout_ms", "timeoutMs"], Option Nat,
    Json.format.optional Json.format.unsigned, (·.timeoutMillis),
    fun t x => { t with timeoutMillis := x }⟩

def batchingSlot : FieldSlot Draft Json.Document :=
  ⟨"batching", ["batching"], Option Options, Json.format.optional (Options.read Json.format),
    (·.batching), fun t x => { t with batching := x }⟩

def slots : List (FieldSlot Draft Json.Document) := [nameSlot, urlSlot, timeoutSlot, batchingSlot]

theorem step_eq : step Json.format = FieldSlot.step slots := by
  funext t name d
  simp only [slots, nameSlot, urlSlot, timeoutSlot, batchingSlot, FieldSlot.step, List.mem_cons,
    List.not_mem_nil, or_false]
  rfl

theorem slots_lawful : FieldSlot.Lawful slots where
  kept_put := by simp [slots, nameSlot, urlSlot, timeoutSlot, batchingSlot]
  apart := by simp [slots, nameSlot, urlSlot, timeoutSlot, batchingSlot]
  ext := by
    rintro ⟨_, _, _, _⟩ ⟨_, _, _, _⟩ same
    simpa [slots, nameSlot, urlSlot, timeoutSlot, batchingSlot] using same

theorem read_object {ms : List (String × Json)} (t : Draft) {name url : String}
    (filled : ∀ F ∈ slots, F.Filled (Json.named ms) (F.kept {}) (F.kept t))
    (named : t.name = some name) (placed : t.url = some url) :
    read Json.format (Json.document (.object ms))
      = .ok ⟨name, url, t.timeoutMillis.getD none, t.batching.getD none⟩ := by
  have hfold : Parts.fold (step Json.format) {} ⟨Json.named ms, true⟩ = .ok t :=
    step_eq ▸ slots_lawful.fold_eq_ok.mpr ⟨rfl, filled⟩
  unfold read
  rw [Json.record_object]
  show (Parts.fold (step Json.format) {} ⟨Json.named ms, true⟩ >>= _) = _
  rw [hfold]
  show (required "name" t.name >>= fun name => required "url" t.url >>= _) = _
  rw [named, placed]
  rfl

theorem read_respelled {t : TargetConfig} (fits : t.Fits) {v : Json}
    (spelled : Json.Respelled t.toJson v) : read Json.format (Json.document v) = .ok t := by
  obtain ⟨ns, rfl, hns⟩ := spelled.of_object
  have hname : nameSlot.Filled (Json.named (Members.ofList ns)) none (some t.name) :=
    Json.filled_of_some nameSlot (by decide) rfl hns nofun fun w hw =>
      Json.string_eq_ok.mpr (hw.of_ne (by decide)).of_string
  have hurl : urlSlot.Filled (Json.named (Members.ofList ns)) none (some t.url) :=
    Json.filled_of_some urlSlot (by decide) rfl hns nofun fun w hw =>
      Json.string_eq_ok.mpr (hw.of_ne (by decide)).of_string
  obtain ⟨millis, hmillis, same_millis⟩ : ∃ x : Option (Option Nat),
      timeoutSlot.Filled (Json.named (Members.ofList ns)) none x ∧
        x.getD none = t.timeoutMillis :=
    Json.number_respelled fits.timeoutMillis (by decide) (by decide) rfl hns
  obtain ⟨batching, hbatching, same_batching⟩ : ∃ x : Option (Option Options),
      batchingSlot.Filled (Json.named (Members.ofList ns)) none x ∧ x.getD none = t.batching :=
    Json.optional_respelled (by decide) (by decide) rfl hns
      (fun o _ w => Options.respelled_ne_null)
      fun o ho w => Options.read_respelled (fits.batching o ho)
  have hread := read_object ⟨some t.name, some t.url, millis, batching⟩
    (List.forall_mem_cons.mpr ⟨hname, List.forall_mem_cons.mpr ⟨hurl,
      List.forall_mem_cons.mpr ⟨hmillis, List.forall_mem_singleton.mpr hbatching⟩⟩⟩) rfl rfl
  exact hread.trans (by rw [same_millis, same_batching])

end TargetConfig

/-! ## whole configurations -/

namespace Json

theorem documents_eq_map (vs : List Json) : documents vs = vs.map document := by
  induction vs with
  | nil => rfl
  | cons v rest ih =>
    unfold documents
    rw [ih, List.map_cons]

/-- A list is read item by item, each in a spelling of its own. -/
theorem listOf_respelled {α : Type} {read : Document → Except Fault α} {wrap : α → Json}
    {as : List α} (reads : ∀ a ∈ as, ∀ w, Respelled (wrap a) w → read (document w) = .ok a)
    {w : Json} (h : Respelled (.array (as.map wrap)) w) :
    format.listOf read (document w) = .ok as := by
  obtain ⟨ws, rfl, hws⟩ := h.of_array
  have hboth := (List.forall₂_and_left as ws).mpr ⟨reads, List.forall₂_map_left_iff.mp hws⟩
  have hitems : (documents ws).mapM read = .ok as := by
    rw [documents_eq_map, mapM_eq_ok]
    exact List.forall₂_map_left_iff.mpr (hboth.imp fun a w ⟨reads, spelled⟩ => reads w spelled).flip
  show ((documents ws).mapM read >>= _) = _
  rw [hitems]
  rfl

end Json

namespace Config

def paddingSlot : FieldSlot Draft Json.Document :=
  ⟨"deadline_padding_ms", ["deadline_padding_ms", "deadlinePaddingMs"], Int, Json.format.signed,
    (·.padding), fun c x => { c with padding := x }⟩

def strictSlot : FieldSlot Draft Json.Document :=
  ⟨"strict_batching", ["strict_batching", "strictBatching"], Bool, Json.format.bool, (·.strict),
    fun c x => { c with strict := x }⟩

def targetsSlot : FieldSlot Draft Json.Document :=
  ⟨"upstreams", ["upstreams"], List TargetConfig,
    Json.format.listOf (TargetConfig.read Json.format), (·.targets),
    fun c x => { c with targets := x }⟩

def slots : List (FieldSlot Draft Json.Document) := [paddingSlot, strictSlot, targetsSlot]

theorem step_eq : step Json.format = FieldSlot.step slots := by
  funext c name d
  simp only [slots, paddingSlot, strictSlot, targetsSlot, FieldSlot.step, List.mem_cons,
    List.not_mem_nil, or_false]
  rfl

theorem slots_lawful : FieldSlot.Lawful slots where
  kept_put := by simp [slots, paddingSlot, strictSlot, targetsSlot]
  apart := by simp [slots, paddingSlot, strictSlot, targetsSlot]
  ext := by
    rintro ⟨_, _, _⟩ ⟨_, _, _⟩ same
    simpa [slots, paddingSlot, strictSlot, targetsSlot] using same

theorem read_object {ms : List (String × Json)} (t : Draft)
    (filled : ∀ F ∈ slots, F.Filled (Json.named ms) (F.kept {}) (F.kept t)) :
    read Json.format (Json.document (.object ms))
      = .ok ⟨t.padding.getD usual.padding, t.strict.getD usual.strict,
          t.targets.getD usual.targets⟩ := by
  have hfold : Parts.fold (step Json.format) {} ⟨Json.named ms, true⟩ = .ok t :=
    step_eq ▸ slots_lawful.fold_eq_ok.mpr ⟨rfl, filled⟩
  unfold read
  rw [Json.record_object]
  show (Parts.fold (step Json.format) {} ⟨Json.named ms, true⟩ >>= _) = _
  rw [hfold]
  rfl

theorem read_respelled {c : Config} (fits : c.Fits) {v : Json}
    (spelled : Json.Respelled c.toJson v) : read Json.format (Json.document v) = .ok c := by
  obtain ⟨ns, rfl, hns⟩ := spelled.of_object
  have hpadding : paddingSlot.Filled (Json.named (Members.ofList ns)) none (some c.padding) :=
    Json.filled_of_some paddingSlot (by decide) rfl hns nofun fun w hw =>
      (hw.of_ne (by decide)).of_number ▸ Json.signed_int fits.low fits.high
  have hstrict : strictSlot.Filled (Json.named (Members.ofList ns)) none (some c.strict) :=
    Json.filled_of_some strictSlot (by decide) rfl hns nofun fun w hw =>
      (hw.of_ne (by decide)).of_bool ▸ rfl
  have htargets : targetsSlot.Filled (Json.named (Members.ofList ns)) none (some c.targets) :=
    Json.filled_of_some targetsSlot (by decide) rfl hns nofun fun w hw =>
      Json.listOf_respelled (fun t ht w => TargetConfig.read_respelled (fits.targets t ht))
        (hw.of_ne (by decide))
  exact read_object ⟨some c.padding, some c.strict, some c.targets⟩ (List.forall_mem_cons.mpr
    ⟨hpadding, List.forall_mem_cons.mpr ⟨hstrict, List.forall_mem_singleton.mpr htargets⟩⟩)

/-- **Configurations survive any spelling.**  A configuration whose numbers fit their words is read
back from its own value, and from any value that spells its names and strategies otherwise or
leaves out what is null; what is read is found valid, and resolved, as before. -/
theorem spelling_kept (c : Config) (fits : c.Fits) :
    read Json.format (Json.document c.toJson) = .ok c ∧
      ∀ v, Json.Respelled c.toJson v →
        ∃ c', read Json.format (Json.document v) = .ok c' ∧ c' = c ∧
          (∀ urlFault, c'.validate urlFault = c.validate urlFault) ∧
            ∀ t, c'.resolveBatching t = c.resolveBatching t :=
  ⟨read_respelled fits (.same _), fun _ spelled =>
    ⟨c, read_respelled fits spelled, rfl, fun _ => rfl, fun _ => rfl⟩⟩

/-- two targets with numbers at the ends of their ranges: all names are spelled otherwise, and all
nulls but one are left out -/
theorem spelling_kept_aliases :
    let options : Options :=
      { strategy := .byHeaders, style := .single, maxSize := some Word.unsignedMax }
    let c : Config :=
      { padding := Word.signedMin, strict := true
        targets := [⟨"a", "http://a", some Word.unsignedMax, some options⟩, ⟨"b", "", none, none⟩] }
    let v : Json :=
      .ofMembers [("deadlinePaddingMs", .int Word.signedMin), ("strictBatching", .bool true),
        ("upstreams", .array
          [.ofMembers [
            ("batching", .ofMembers [("maxSize", .nat Word.unsignedMax),
              ("strategy", .string "by_upstream_headers"), ("style", .string "single"),
              ("wait", .ofMembers [("queries", .null)])]),
            ("name", .string "a"), ("timeoutMs", .nat Word.unsignedMax),
            ("url", .string "http://a")],
          .ofMembers [("name", .string "b"), ("url", .string "")]])]
    c.Fits ∧ Json.Respelled c.toJson v ∧
      ∃ c', read Json.format (Json.document v) = .ok c' ∧ c' = c ∧
        (∀ urlFault, c'.validate urlFault = c.validate urlFault) ∧
          ∀ t, c'.resolveBatching t = c.resolveBatching t := by
  intro options c v
  have hoptions : options.Fits := ⟨by simp [options], ⟨nofun, nofun⟩⟩
  have hc : c.Fits := by
    refine ⟨by decide, by decide, List.forall_mem_cons.mpr ⟨⟨by simp, ?_⟩,
      List.forall_mem_singleton.mpr ⟨nofun, nofun⟩⟩⟩
    rintro _ ⟨⟩
    exact hoptions
  have hv : Json.Respelled c.toJson v := by
    let first : Json := .object
      [("batching", .object [("max_size", .nat Word.unsignedMax),
        ("strategy", .string "by-upstream-headers"), ("style", .string "single"),
        ("wait", .object [("millis", .null), ("queries", .null)])]),
      ("name", .string "a"), ("timeout_ms", .nat Word.unsignedMax), ("url", .string "http://a")]
    let second : Json := .object
      [("batching", .null), ("name", .string "b"), ("timeout_ms", .null), ("url", .string "")]
    have hwritten : c.toJson = .object [("deadline_padding_ms", .int Word.signedMin),
      ("strict_batching", .bool true), ("upstreams", .array [first, second])] := by
      simp +decide [c, first, second, options, toJson, TargetConfig.toJson, Options.toJson,
        WaitOptions.toJson, Json.ofMembers, Members.ofList, Members.insert, Json.ofOption,
        Strategy.name, Style.name]
    rw [hwritten]
    open Json.MembersRespelled Json.ValueRespelled Json.Respelled in
    refine .object (kept (.inr (by decide)) (value (same _)) (kept (.inr (by decide))
      (value (same _)) (kept (.inl rfl) (value (array (.cons ?_ (.cons ?_ .nil)))) nil)))
    · refine object (kept (.inl rfl) (value (object ?_)) (kept (.inl rfl) (value (same _))
        (kept (.inr (by decide)) (value (same _)) (kept (.inl rfl) (value (same _)) nil))))
      exact kept (.inr (by decide)) (value (same _)) (kept (.inl rfl) (strategy (by decide))
        (kept (.inl rfl) (value (same _)) (kept (.inl rfl) (value (object
          (dropped "millis" (kept (.inl rfl) (value (same _)) nil)))) nil)))
    · exact object (dropped "batching" (kept (.inl rfl) (value (same _))
        (dropped "timeout_ms" (kept (.inl rfl) (value (same _)) nil))))
  exact ⟨hc, hv, (spelling_kept c hc).2 v hv⟩

end Config

end Coalesce
