import Mathlib.Data.List.Induction
import PipelineLens.Preview.Basic
import PipelineLens.Tree.Layout
/-!
# Histories of calls

A preview serves many documents over a long time, and its cache is there to save work only. After
any history of calls the cache holds, for each key, the entry of the text that was last given for it
(`get?_after`); as long as a version of a document has one text, a call therefore has the outcome
that it would have at the start (`outcome_after`). Only a call that does not find its version in the
cache is paid for by a parse (`parses_after`).
-/
namespace PipelineLens

/-- What a preview is asked to do. -/
inductive Call (κ : Type) where
  | pipeline (key : κ) (d : VersionedText)
  | run (key : κ) (d : VersionedText) (client : Client) (now : Instant)
  | invalidate (key : κ)

/-- What is seen of a call. -/
inductive Outcome where
  | graph (items : List Graph.Item)
  | run (result : Except Error RunPreview) (requests : List Request)
  | invalidated (found : Bool)
deriving DecidableEq

namespace Call

variable {κ : Type}

def key : Call κ → κ
  | pipeline key _ => key
  | run key .. => key
  | invalidate key => key

/-- The document whose graph is asked for. -/
def document? : Call κ → Option VersionedText
  | pipeline _ d => some d
  | run _ d _ _ => some d
  | invalidate _ => none

end Call

/-- One version of a document has one text throughout the calls. -/
def Coherent {κ : Type} (calls : List (Call κ)) : Prop :=
  ∀ a ∈ calls, ∀ b ∈ calls, a.key = b.key → ∀ d ∈ a.document?, ∀ d' ∈ b.document?,
    d.version = d'.version → d.text = d'.text

theorem Coherent.of_subset {κ : Type} {calls calls' : List (Call κ)} (hc : Coherent calls)
    (h : calls' ⊆ calls) : Coherent calls' :=
  fun a ha b hb => hc a (h ha) b (h hb)

section
variable {κ : Type} [DecidableEq κ]

instance (calls : List (Call κ)) : Decidable (Coherent calls) :=
  inferInstanceAs (Decidable (∀ a ∈ calls, ∀ b ∈ calls, a.key = b.key → ∀ d ∈ a.document?,
    ∀ d' ∈ b.document?, d.version = d'.version → d.text = d'.text))

/-- The document of the last call for a key, unless that call forgets the key. -/
def opened (calls : List (Call κ)) (key : κ) : Option VersionedText :=
  (calls.reverse.find? fun call => call.key = key).bind (·.document?)

theorem opened_append (calls : List (Call κ)) (call : Call κ) (key : κ) :
    opened (calls ++ [call]) key = if call.key = key then call.document? else opened calls key := by
  unfold opened
  rw [List.reverse_append, List.reverse_singleton, List.singleton_append, List.find?_cons]
  by_cases h : call.key = key
  · simp [h]
  · simp [h]

theorem exists_call_of_opened {calls : List (Call κ)} {key : κ} {d : VersionedText}
    (h : opened calls key = some d) : ∃ call ∈ calls, call.key = key ∧ call.document? = some d := by
  obtain ⟨call, hfind, hd⟩ := Option.bind_eq_some_iff.1 h
  have hmem := List.mem_of_find?_eq_some hfind
  exact ⟨call, List.mem_reverse.1 hmem, by simpa using List.find?_some hfind, hd⟩

/-- A document that was given before for the key of the last call has the same text, if it has the
same version. -/
theorem Coherent.text_eq {calls : List (Call κ)} {call : Call κ} {d d' : VersionedText}
    (hc : Coherent (calls ++ [call])) (hd : call.document? = some d)
    (hd' : opened calls call.key = some d') (hv : d'.version = d.version) : d'.text = d.text := by
  obtain ⟨call', hmem, hkey, hdoc⟩ := exists_call_of_opened hd'
  exact hc call' (List.mem_append_left _ hmem) call (List.mem_append_right _ List.mem_cons_self)
    hkey d' hdoc d hd hv

namespace Preview

/-! ## Calls one after the other -/

/-- What comes of a call. -/
def step (p : Preview κ) : Call κ → Outcome × Preview κ
  | .pipeline key d =>
    let (items, p) := p.pipelineGraph key d
    (.graph items, p)
  | .run key d client now =>
    let answer := p.runGraph key d client now
    (.run answer.result answer.requests, answer.preview)
  | .invalidate key =>
    let (found, p) := p.invalidate key
    (.invalidated found, p)

/-- The preview after some calls. -/
def after (p : Preview κ) (calls : List (Call κ)) : Preview κ :=
  calls.foldl (fun p call => (p.step call).2) p

/-- Whether a call asks for a version that is not in the cache. -/
def lacks (p : Preview κ) (call : Call κ) : Bool :=
  call.document?.any fun d => p.cache.version? call.key ≠ some d.version

/-- How many of some calls, made one after the other, ask for a version that is not in the cache. -/
def misses (p : Preview κ) : List (Call κ) → Nat
  | [] => 0
  | call :: calls => (if p.lacks call then 1 else 0) + (p.step call).2.misses calls

variable {p q : Preview κ} {call : Call κ} {d : VersionedText}

theorem after_append (p : Preview κ) (calls : List (Call κ)) (call : Call κ) :
    p.after (calls ++ [call]) = ((p.after calls).step call).2 := by
  simp [after]

/-- A call for a graph leaves the preview that has the entry of its document. -/
theorem step_of_document (h : call.document? = some d) :
    (p.step call).2 = (p.ensure call.key d).2 := by
  cases call with
  | pipeline key d' =>
    obtain rfl : d' = d := Option.some.inj h
    rfl
  | run key d' client now =>
    obtain rfl : d' = d := Option.some.inj h
    change (p.runGraph key d' client now).preview = (p.ensure key d').2
    unfold runGraph
    simp only
    split <;> rfl
  | invalidate key => cases h

theorem step_of_no_document (h : call.document? = none) :
    (p.step call).2 = { p with cache := p.cache.erase call.key } := by
  cases call with
  | invalidate key => rfl
  | _ => cases h

/-- The outcome of a call for a graph depends on the entry of its document and on the options. -/
theorem outcome_congr (h : call.document? = some d) (ho : p.options = q.options)
    (he : (p.ensure call.key d).1 = (q.ensure call.key d).1) :
    (p.step call).1 = (q.step call).1 := by
  cases call with
  | pipeline key d' =>
    obtain rfl : d' = d := Option.some.inj h
    change Outcome.graph (Graph.ofPipeline (p.ensure key d').1.parsed.pipelineTasks p.options)
      = .graph (Graph.ofPipeline (q.ensure key d').1.parsed.pipelineTasks q.options)
    rw [ho, show (p.ensure key d').1 = (q.ensure key d').1 from he]
  | run key d' client now =>
    obtain rfl : d' = d := Option.some.inj h
    change Outcome.run (p.runGraph key d' client now).result (p.runGraph key d' client now).requests
      = .run (q.runGraph key d' client now).result (q.runGraph key d' client now).requests
    unfold runGraph
    simp only
    have hentry : (p.ensure key d').1 = (q.ensure key d').1 := he
    have hp : (p.ensure key d').2.options = p.options := rfl
    have hq : (q.ensure key d').2.options = q.options := rfl
    rw [hentry, hp, hq, ho]
    cases RunPlan.of? (q.ensure key d').1.parsed <;> rfl
  | invalidate key => cases h

/-! ## One call -/

/-- The preview reads texts with `parse`, draws with `options`, and has in its cache the entries of
the documents `docs`. -/
structure Holds (parse : String → Parsed) (options : Options) (docs : κ → Option VersionedText)
    (p : Preview κ) : Prop where
  parse_eq : p.parse = parse
  options_eq : p.options = options
  entry : ∀ key, p.cache.get? key = (docs key).map (CacheEntry.ofText parse)

section
variable {parse : String → Parsed} {options : Options} {docs : κ → Option VersionedText}

theorem holds_empty (parse : String → Parsed) (options : Options) :
    (empty parse options : Preview κ).Holds parse options fun _ => none :=
  ⟨rfl, rfl, Cache.get?_empty⟩

/-- The entry ensured for a document is that of its text, new or kept. -/
theorem Holds.ensure_eq (h : p.Holds parse options docs) {key : κ}
    (hd : ∀ d', docs key = some d' → d'.version = d.version → d'.text = d.text) :
    (p.ensure key d).1 = .ofText parse d := by
  change (p.cache.ensure p.parse key d).1 = _
  obtain ⟨entry, hentry, hv, heq⟩ | ⟨-, heq⟩ := Cache.ensure_cases p.parse p.cache key d
  · rw [heq]
    rw [h.entry] at hentry
    obtain ⟨d', hd', rfl⟩ := Option.map_eq_some_iff.1 hentry
    have hdd : d' = d := by
      obtain ⟨version, text⟩ := d
      obtain ⟨version', text'⟩ := d'
      obtain rfl : version' = version := hv
      obtain rfl : text' = text := hd _ hd' rfl
      rfl
    rw [hdd]
  · rw [heq, h.parse_eq]

/-- A call for a graph leaves the entry of its document, and an invalidation leaves none. -/
theorem Holds.step (h : p.Holds parse options docs)
    (hd : ∀ d, call.document? = some d → ∀ d', docs call.key = some d' → d'.version = d.version →
      d'.text = d.text) :
    (p.step call).2.Holds parse options fun key =>
      if call.key = key then call.document? else docs key := by
  cases hdoc : call.document? with
  | none =>
    rw [step_of_no_document hdoc]
    refine ⟨h.parse_eq, h.options_eq, ?_⟩
    intro key
    change (p.cache.erase call.key).get? key = _
    rw [Cache.get?_erase, h.entry]
    split <;> rfl
  | some d =>
    rw [step_of_document hdoc]
    refine ⟨h.parse_eq, h.options_eq, ?_⟩
    intro key
    have hentry : (p.cache.ensure p.parse call.key d).1 = .ofText parse d :=
      h.ensure_eq fun d' => hd d hdoc d'
    change (p.cache.ensure p.parse call.key d).2.get? key = _
    rw [Cache.get?_ensure, hentry, h.entry]
    split <;> rfl

end

theorem parses_step (p : Preview κ) (call : Call κ) :
    (p.step call).2.cache.parses = p.cache.parses + if p.lacks call then 1 else 0 := by
  unfold lacks
  cases hdoc : call.document? with
  | none =>
    rw [step_of_no_document hdoc]
    rfl
  | some d =>
    rw [step_of_document hdoc]
    change (p.cache.ensure p.parse call.key d).2.parses = _
    rw [Cache.parses_ensure]
    by_cases hv : p.cache.version? call.key = some d.version <;> simp [hv]

/-! ## All calls -/

variable {parse : String → Parsed} {options : Options} {calls : List (Call κ)}

theorem holds_after (hc : Coherent calls) :
    ((empty parse options).after calls).Holds parse options (opened calls) := by
  induction calls using List.reverseRecOn with
  | nil => exact holds_empty parse options
  | append_singleton calls call ih =>
    have hbefore := ih (hc.of_subset (List.subset_append_left _ _))
    have hopened : opened (calls ++ [call])
        = fun key => if call.key = key then call.document? else opened calls key :=
      funext fun key => opened_append calls call key
    rw [after_append, hopened]
    apply hbefore.step
    intro d hd d' hd' hv
    exact hc.text_eq hd hd' hv

/-- The text of a document is parsed once for each call that does not find its version. -/
theorem parses_after (p : Preview κ) (calls : List (Call κ)) :
    (p.after calls).cache.parses = p.cache.parses + p.misses calls := by
  induction calls generalizing p with
  | nil => rfl
  | cons call calls ih =>
    change ((p.step call).2.after calls).cache.parses = _
    rw [ih, parses_step, misses, Nat.add_assoc]

/-- **The cache is transparent.** As long as a version of a document has one text, a call for a
graph has the outcome that it would have at the start, whatever calls came before it. At any time
the cache has an entry for the keys whose last call was not an invalidation, with the version of
that call, what its text reads as and the lines of its text; and each call for a version that the
cache did not have is one parse. -/
theorem cache_transparent (parse : String → Parsed) (options : Options) {calls : List (Call κ)}
    (hc : Coherent calls) :
    (∀ before call later, calls = before ++ call :: later → call.document?.isSome = true →
      (((empty parse options).after before).step call).1 = ((empty parse options).step call).1) ∧
    ∀ before, before <+: calls →
      (∀ key, ((empty parse options).after before).cache.get? key
        = (opened before key).map fun d =>
          { version := d.version
            parsed := parse d.text
            lines := LineTable.ofText .char d.text }) ∧
      ((empty parse options).after before).cache.parses
        = (empty parse options : Preview κ).misses before := by
  constructor
  · intro before call later hcalls hdoc
    obtain ⟨d, hd⟩ := Option.isSome_iff_exists.1 hdoc
    have hprefix : before ++ [call] ⊆ calls := by
      rw [hcalls, List.append_cons before call later]
      exact List.subset_append_left _ _
    have hsnoc := hc.of_subset hprefix
    have hholds : ((empty parse options).after before).Holds parse options (opened before) :=
      holds_after (hsnoc.of_subset (List.subset_append_left _ _))
    apply outcome_congr hd hholds.options_eq
    rw [hholds.ensure_eq fun d' hd' hv => hsnoc.text_eq hd hd' hv,
      (holds_empty parse options).ensure_eq nofun]
  · intro before hbefore
    refine ⟨(holds_after (hc.of_subset hbefore.subset)).entry, ?_⟩
    rw [parses_after]
    exact Nat.zero_add _

end Preview

end

/-- Reads a text as the kind of a resource with a name and nothing else. -/
def parseKind (text : String) : Parsed :=
  .ofDrafts [⟨[.mapping "" 0 60 [
    .pair 0 10 (.scalar "apiVersion" 0 10) (.scalar "tekton.dev/v1" 0 10),
    .pair 10 20 (.scalar "kind" 10 14) (.scalar text 15 20),
    .pair 20 60 (.scalar "metadata" 20 28) (.mapping "" 30 60 [
      .pair 30 60 (.scalar "name" 30 34) (.scalar "nightly" 35 42)])]], [], 0, 60⟩]

/-- Nothing can be fetched. -/
def offlineClient : Client := fun _ => ⟨.error (.fetch "pipelinerun" "offline"), none⟩

/-- The document is edited while the run is fetched. -/
def editingClient : Client := fun _ => ⟨.ok "{}", some 9⟩

/-- Two documents: one goes to a new version, back to the old one and is forgotten, while the runs
of the other fail to be fetched or come too late. -/
def sampleHistory : List (Call Nat) :=
  [.pipeline 0 ⟨1, "Pipeline"⟩, .run 1 ⟨5, "PipelineRun"⟩ offlineClient .epoch,
   .pipeline 0 ⟨2, "Task"⟩, .pipeline 0 ⟨1, "Pipeline"⟩, .invalidate 0,
   .run 1 ⟨5, "PipelineRun"⟩ editingClient .epoch, .pipeline 0 ⟨1, "Pipeline"⟩]

theorem cache_transparent_sampleHistory :
    Coherent sampleHistory ∧
    (((Preview.empty parseKind .default).after (sampleHistory.take 5)).step
      (.run 1 ⟨5, "PipelineRun"⟩ editingClient .epoch)).1 = .run (.ok .stale) [.run "nightly"] ∧
    ((Preview.empty parseKind .default).after sampleHistory).cache.get? 0 = some
      { version := 1, parsed := parseKind "Pipeline", lines := LineTable.ofText .char "Pipeline" } ∧
    ((Preview.empty parseKind .default).after (sampleHistory.take 5)).cache.version? 0 = none ∧
    ((Preview.empty parseKind .default).after sampleHistory).cache.parses = 5 := by
  have hc : Coherent sampleHistory := by decide
  obtain ⟨houtcome, hstate⟩ := Preview.cache_transparent parseKind .default hc
  refine ⟨hc, ?_, ?_, ?_, ?_⟩
  · rw [houtcome (sampleHistory.take 5) _ _ rfl rfl]
    decide +kernel
  · rw [(hstate sampleHistory (List.prefix_refl _)).1]
    rfl
  · rw [Cache.version?, (hstate _ (List.take_prefix 5 _)).1]
    rfl
  · rw [(hstate sampleHistory (List.prefix_refl _)).2]
    decide +kernel

end PipelineLens
