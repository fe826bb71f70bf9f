import SplitEditor.Proofs.Analysis.Protocol

/-! The functions of an analysis binary with their types, as its interface lists them. Whatever a
request comes to, it calls each function with as many words as its type takes. -/

namespace SplitEditor

open Wasm

namespace Interface

def words (n : Nat) : FuncType := ⟨List.replicate n .i32, [.i32]⟩

/-- The functions that are asked for, in the order in which they are. -/
def functions : List (String × FuncType) :=
  [("alloc", words 1),
    ("ASL_compile", words 1),
    ("ASL_hover", words 3),
    ("ASL_go_to_definition", words 3),
    ("ASL_find_all_references", words 3),
    ("Result_is_ok", words 1),
    ("Result_ok", words 1),
    ("Result_error", words 1),
    ("Buf_as_ptr", words 1),
    ("Buf_len", words 1),
    ("Error_msg_ptr", words 1),
    ("Error_msg_len", words 1),
    ("Error_span", words 1),
    ("Span_line_from", words 1),
    ("Span_column_from", words 1),
    ("Span_line_to", words 1),
    ("Span_column_to", words 1),
    ("Hover_ty", words 1),
    ("Hover_span", words 1),
    ("Spans_get", words 2)]

theorem functions_eq_all : functions = Entry.all.map fun e => (e.name, e.type) := by decide

theorem functions_eq_lookups : functions = Instance.lookups.map fun e => (e.name, e.type) := by
  decide

theorem mem_functions (e : Entry) : (e.name, e.type) ∈ functions := by
  rw [functions_eq_all]
  exact List.mem_map_of_mem (Entry.mem_all e)

theorem forall_functions {p : String × FuncType → Prop} :
    (∀ f ∈ functions, p f) ↔ ∀ e : Entry, p (e.name, e.type) := by
  rw [functions_eq_all, List.forall_mem_map]
  exact ⟨fun h e => h e (Entry.mem_all e), fun h e _ => h e⟩

theorem map_split {entries before after : List Entry} {e : Entry}
    (h : functions = entries.map fun e => (e.name, e.type))
    (hsplit : entries = before ++ e :: after) : functions = before.map (fun e => (e.name, e.type)) ++
      (e.name, e.type) :: after.map fun e => (e.name, e.type) := by
  rw [h, hsplit, List.map_append, List.map_cons]

/-- The call is of one of the functions, or gives memory back, and passes as many words as that
takes. -/
def Takes (c : Call) : Prop := ∃ type : FuncType,
  (c.1, type) ∈ (deallocName, deallocType) :: functions ∧ c.2.length = type.params.length

theorem takes_entry {e : Entry} {args : List UInt32} (h : args.length = e.arity) :
    Takes (e.name, args) :=
  ⟨e.type, List.mem_cons_of_mem _ (mem_functions e), by rw [h, Entry.type, List.length_replicate]⟩

end Interface

namespace Instance
open Interface

def TakesAll (i i' : Instance) : Prop := ∃ new, i'.calls = new ++ i.calls ∧ ∀ c ∈ new, Takes c

theorem takesAll_called {name : String} {args : List UInt32} (h : Takes (name, args))
    (i : Instance) (store : Store) : TakesAll i (i.called name args store) :=
  ⟨[(name, args)], rfl, List.forall_mem_singleton.2 h⟩

theorem respects_takesAll : Respects TakesAll where
  refl _ := ⟨[], rfl, by simp⟩
  trans := exists_new_trans
  called _ harity := takesAll_called (takes_entry harity)

theorem takesAll_call {e : Entry} {args : List UInt32} (h : args.length = e.arity) :
    Keeps TakesAll (call e args) := keeps_call (takesAll_called (takes_entry h))

theorem takesAll_writeBytes (ptr : UInt32) (bytes : List UInt8) :
    Keeps TakesAll (writeBytes ptr bytes) := by
  intro i
  have hget : (get : Live Instance).run i = (.ok i, i) := rfl
  rw [writeBytes, run_bind_ok hget]
  split <;> exact ⟨[], rfl, by simp⟩

theorem takesAll_upload (codec : Codec) (text : String) : Keeps TakesAll (upload codec text) := by
  have h := respects_takesAll
  have hthrow {α β : Type} (e : AnalysisError) (next : α → Live β) :
      Keeps TakesAll (throw e >>= next) := fun i => h.refl i
  unfold upload
  simp only
  split
  · exact hthrow _ _
  · refine h.keeps_bind (takesAll_call rfl) fun ptr => ?_
    split
    · exact hthrow _ _
    · exact h.keeps_bind (h.keeps_checkBounds _ _) fun _ =>
        h.keeps_bind (takesAll_writeBytes _ _) fun _ => h.keeps_pure _

theorem takesAll_start (s : Service) (buffer : UploadedSource) :
    Keeps TakesAll (s.start buffer) := by
  have h := respects_takesAll
  by_cases hfits : s.Fits
  · rw [Service.start_of_fits hfits]
    refine h.keeps_bind (takesAll_call ?_) fun _ => h.keeps_pure _
    cases s <;> rfl
  · obtain ⟨e, hthrow⟩ : ∃ e, s.start buffer = throw e := Service.start_of_not_fits hfits
    rw [hthrow]
    exact h.keeps_throw e

theorem takesAll_release (buffer : UploadedSource) : Keeps TakesAll (release buffer) := by
  have h := respects_takesAll
  have htakes : Takes (deallocName, [buffer.ptr, buffer.len]) :=
    ⟨deallocType, List.mem_cons_self, rfl⟩
  refine h.keeps_bind h.keeps_get fun i => ?_
  split
  · next body _ =>
    refine h.keeps_bind (fun i => ?_) fun _ => h.keeps_pure _
    cases hcall : body [buffer.ptr, buffer.len] i.store with
    | mk result store =>
      cases result with
      | some n => exact run_invoke_some hcall ▸ takesAll_called htakes i store
      | none => exact run_invoke_none hcall ▸ takesAll_called htakes i store
  · exact h.keeps_pure _

end Instance

namespace Host
open Instance

theorem takesAll_request (b : Host) (s : Service) (source : String) :
    Keeps (fun w w' => TakesAll w.1 w'.1) (b.request s.entry s.outcome source (s.ask b)) := by
  have h := respects_takesAll.tracks
  have hlive {α : Type} {action : Live α} (haction : Keeps TakesAll action) :
      Keeps (fun w w' => TakesAll w.1 w'.1) (live action) := fun w => haction w.1
  refine h.keeps_bind (hlive (takesAll_upload _ _)) fun buffer => ?_
  refine h.keeps_bind (h.keeps_bind (hlive (takesAll_start s buffer)) fun handle => ?_)
    fun value => ?_
  · exact Service.keeps_decode_of_tracks h b s handle
  · exact h.keeps_bind (hlive (takesAll_release buffer)) fun _ =>
      h.keeps_bind (hlive fun i => respects_takesAll.refl i) fun fuel =>
        h.keeps_bind (fun w => h.refl w) fun _ => h.keeps_pure _

theorem takes_of_mem_calls (b : Host) (s : Service) (source : String) :
    ∀ c ∈ (b.exchange s source).calls, Interface.Takes c := by
  intro c hc
  by_cases h : ∃ i, Exchange.Creates b source i
  · obtain ⟨i, hcreates⟩ := h
    rw [Exchange.exchange_created hcreates, Exchange.seen_calls] at hc
    obtain ⟨new, hnew, htakes⟩ :=
      takesAll_request b s source (i, Exchange.opening s source)
    have hcalls : (b.conduct s source i).2.1.calls = new := by
      rw [(Binary.fresh hcreates.instantiate).1, List.append_nil] at hnew
      exact hnew
    rw [hcalls] at hc
    exact htakes c (List.mem_reverse.1 hc)
  · obtain ⟨e, hexchange⟩ := Exchange.exchange_uncreated (s := s) fun i hi => h ⟨i, hi⟩
    rw [hexchange] at hc
    cases hc

end Host

end SplitEditor
