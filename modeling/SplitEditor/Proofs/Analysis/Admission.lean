import SplitEditor.Proofs.Analysis.Detection
import SplitEditor.Proofs.Analysis.Signatures
import SplitEditor.Proofs.Wasm.Contents
import SplitEditor.Wasm.Load
import SplitEditor.Wasm.Writer

/-! What becomes of a module: whether it serves as an analysis binary, whether that binary can be
instantiated, and what is reported if not. The kinds of the exports are looked at when the binary
is loaded, their types when it is instantiated, both in the order of the interface. -/

namespace SplitEditor

namespace Wasm

def Item.IsMemory (item : Item) : Prop := ∃ shared, item = .memory shared

def Item.IsFunction (item : Item) : Prop := ∃ type body, item = .func type body

def Item.HasType (type : FuncType) (item : Item) : Prop := ∃ body, item = .func type body

def Segment.Fits (store : Store) : Segment → Prop
  | bytes address content => address + content.length ≤ store.memory.size
  | references table offset content =>
    ∃ t, store.tables[table]? = some t ∧ offset + content.length ≤ t.entries.size

theorem size_table_write {t t' : Table} {offset : Nat} {content : List (Option Nat)}
    (h : t.write offset content = some t') : t'.entries.size = t.entries.size := by
  have hfold (p : Array (Option Nat) × Nat) :
      (content.foldl (fun p entry => (p.1.set! p.2 entry, p.2 + 1)) p).1.size = p.1.size := by
    clear h
    induction content generalizing p with
    | nil => rfl
    | cons entry content ih =>
      rw [List.foldl_cons, ih, Array.set!_eq_setIfInBounds, Array.size_setIfInBounds]
  unfold Table.write at h
  split at h
  · cases h
    exact hfold _
  · cases h

namespace CoreModule
variable {store store' : Store}

theorem isSome_place_iff {segment : Segment} :
    (place store segment).isSome ↔ segment.Fits store := by
  cases segment with
  | bytes address content =>
    simp only [place, Segment.Fits, Memory.write]
    split <;> simp [*]
  | references table offset content =>
    simp only [place, Segment.Fits]
    cases store.tables[table]? with
    | none => simp
    | some t =>
      simp only [Option.bind_eq_bind, Option.bind_some, Table.write]
      split <;> simp [*]

theorem fits_place_iff {segment : Segment} (h : place store segment = some store')
    (other : Segment) : other.Fits store' ↔ other.Fits store := by
  cases segment with
  | bytes address content =>
    obtain ⟨memory, hwrite, h⟩ := Option.bind_eq_some_iff.1 h
    obtain rfl := Option.some.inj h
    cases other <;> simp [Segment.Fits, Memory.size_write hwrite]
  | references table offset content =>
    obtain ⟨t, ht, h⟩ := Option.bind_eq_some_iff.1 h
    obtain ⟨t', hwrite, h⟩ := Option.bind_eq_some_iff.1 h
    obtain rfl := Option.some.inj h
    cases other with
    | bytes => rfl
    | references table' offset' content' =>
      simp only [Segment.Fits, Array.set!_eq_setIfInBounds, Array.getElem?_setIfInBounds]
      split
      · next hsame =>
        subst hsame
        obtain ⟨hlt, rfl⟩ := Array.getElem?_eq_some_iff.1 ht
        simp [hlt, size_table_write hwrite]
      · rfl

theorem isSome_places_iff (segments : List Segment) :
    (segments.foldlM place store).isSome ↔ ∀ segment ∈ segments, segment.Fits store := by
  induction segments generalizing store with
  | nil => simp
  | cons segment segments ih =>
    rw [List.foldlM_cons, List.forall_mem_cons, ← isSome_place_iff]
    cases h : place store segment with
    | none => simp
    | some store' =>
      simp only [Option.bind_eq_bind, Option.bind_some, ih, fits_place_iff h, Option.isSome_some,
        true_and]

def Exports (m : CoreModule) (kind : Item → Prop) (name : String) : Prop :=
  ∃ item, m.item? name = some item ∧ kind item

inductive Lacks (m : CoreModule) (kind : Item → Prop) (other : ExportFault) (name : String) :
    ExportFault → Prop
  | absent (h : m.item? name = none) : Lacks m kind other name .notExported
  | otherKind {item : Item} (h : m.item? name = some item) (hitem : ¬kind item) :
    Lacks m kind other name other

theorem Lacks.not_exports {m : CoreModule} {kind : Item → Prop} {other fault : ExportFault}
    {name : String} (h : m.Lacks kind other name fault) : ¬m.Exports kind name := by
  rintro ⟨item, hitem, hkind⟩
  cases h with
  | absent h => cases hitem.symm.trans h
  | otherKind h hother =>
    obtain rfl := Option.some.inj (hitem.symm.trans h)
    exact hother hkind

end CoreModule

end Wasm

open Wasm Interface

/-- What the bytes of an analysis binary have to be once they are compiled. -/
structure Suitable (m : CoreModule) : Prop where
  imports : m.imports = []
  memory : m.Exports Item.IsMemory memoryName
  functions : ∀ f ∈ functions, m.Exports Item.IsFunction f.1

structure Starts (m : CoreModule) (fuel : Nat) : Prop where
  fits : ∀ segment ∈ m.segments, segment.Fits m.initial
  runs : ∀ body store, m.start = some body → Instance.placeAll m fuel = .ok store →
    (body [] store).1.isSome

def WellTyped (m : CoreModule) : Prop :=
  ∀ f ∈ functions, m.Exports (Item.HasType f.2) f.1

/-- What loading a module comes to. -/
inductive Loads (m : CoreModule) (fuel : Nat) : Except AnalysisError Binary → Prop
  | accepted (h : Suitable m) : Loads m fuel (.ok ⟨m, fuel⟩)
  | imports (h : m.imports ≠ []) :
    Loads m fuel (.error (.forbiddenImports (m.imports.map fun i => i.1 ++ "::" ++ i.2)))
  | memory (himports : m.imports = []) {fault : ExportFault}
      (h : m.Lacks Item.IsMemory .notMemory memoryName fault) :
    Loads m fuel (.error (.missingExport memoryName fault))
  | function (himports : m.imports = []) (hmemory : m.Exports Item.IsMemory memoryName)
      {before after : List (String × FuncType)} {f : String × FuncType} {fault : ExportFault}
      (hfunctions : functions = before ++ f :: after)
      (hbefore : ∀ g ∈ before, m.Exports Item.IsFunction g.1)
      (h : m.Lacks Item.IsFunction .notFunction f.1 fault) :
    Loads m fuel (.error (.missingExport f.1 fault))

def OwnMemory (m : CoreModule) : Prop := m.item? memoryName = some (.memory false)

/-- What instantiating a binary that starts comes to. -/
inductive Instantiates (m : CoreModule) : Except AnalysisError Instance → Prop
  | made {i : Instance} (hmemory : OwnMemory m) (h : WellTyped m)
      (hfunctions : ∀ e : Entry, m.item? e.name = some (.func e.type (i.functions e))) :
    Instantiates m (.ok i)
  | shared (h : m.item? memoryName = some (.memory true)) :
    Instantiates m (.error (.missingExport memoryName .notExported))
  | wrongType (hmemory : OwnMemory m) {before after : List (String × FuncType)}
      {f : String × FuncType} {type : FuncType} {body : Body}
      (hfunctions : functions = before ++ f :: after)
      (hbefore : ∀ g ∈ before, m.Exports (Item.HasType g.2) g.1)
      (hitem : m.item? f.1 = some (.func type body)) (htype : type ≠ f.2) :
    Instantiates m (.error (.missingExport f.1 .wrongType))

/-- The modules differ at most in what they export to take memory back. -/
structure AgreesButForDealloc (m m' : CoreModule) : Prop where
  imports : m'.imports = m.imports
  initial : m'.initial = m.initial
  segments : m'.segments = m.segments
  start : m'.start = m.start
  item : ∀ name, name ≠ deallocName → m'.item? name = m.item? name

/-- How the checks of a module fit together, those when it is loaded and those when it is
instantiated. -/
structure Admission (m : CoreModule) (fuel : Nat) (result : Except AnalysisError Binary) :
    Prop where
  ok_iff : (∃ b, result = .ok b) ↔ Suitable m
  loads : Loads m fuel result
  instantiate_ok_iff : ∀ b, result = .ok b → Starts m fuel →
    ((∃ i, b.instantiate = .ok i) ↔ OwnMemory m ∧ WellTyped m)
  instantiates : ∀ b, result = .ok b → Starts m fuel → Instantiates m b.instantiate
  /-- The types are those that the functions are called with. -/
  calls : ∀ (host : Host) (s : Service) (source : String), result = .ok host.binary →
    ∀ c ∈ (host.exchange s source).calls, Takes c
  dealloc : ∀ m', AgreesButForDealloc m m' → ∀ e,
    (Binary.ofModule m' fuel = .error e ↔ result = .error e) ∧
      ∀ b, result = .ok b →
        ((⟨m', fuel⟩ : Binary).instantiate = .error e ↔ b.instantiate = .error e)

variable {m m' : CoreModule} {fuel : Nat}

section Load

theorem checkImports_eq (m : CoreModule) : Binary.checkImports m =
    if m.imports = [] then .ok ()
    else .error (.forbiddenImports (m.imports.map fun i => i.1 ++ "::" ++ i.2)) := by
  unfold Binary.checkImports
  cases m.imports <;> rfl

theorem checkMemory_cases (m : CoreModule) :
    (m.Exports Item.IsMemory memoryName ∧ Binary.checkMemory m = .ok ()) ∨
      ∃ fault, m.Lacks Item.IsMemory .notMemory memoryName fault ∧
        Binary.checkMemory m = .error (.missingExport memoryName fault) := by
  unfold Binary.checkMemory
  split
  · next shared h => exact .inl ⟨⟨_, h, shared, rfl⟩, rfl⟩
  · next item hother h =>
    exact .inr ⟨_, .otherKind h fun ⟨shared, hitem⟩ => hother shared hitem, rfl⟩
  · next h => exact .inr ⟨_, .absent h, rfl⟩

theorem checkFunction_cases (m : CoreModule) (e : Entry) :
    (m.Exports Item.IsFunction e.name ∧ Binary.checkFunction m e = .ok ()) ∨
      ∃ fault, m.Lacks Item.IsFunction .notFunction e.name fault ∧
        Binary.checkFunction m e = .error (.missingExport e.name fault) := by
  unfold Binary.checkFunction
  split
  · next type body h => exact .inl ⟨⟨_, h, type, body, rfl⟩, rfl⟩
  · next item hother h =>
    exact .inr ⟨_, .otherKind h fun ⟨type, body, hitem⟩ => hother type body hitem, rfl⟩
  · next h => exact .inr ⟨_, .absent h, rfl⟩

theorem forM_cases {α ε : Type} (check : α → Except ε Unit) (l : List α) :
    ((∀ a ∈ l, check a = .ok ()) ∧ l.forM check = .ok ()) ∨
      ∃ before a after e, l = before ++ a :: after ∧ (∀ b ∈ before, check b = .ok ()) ∧
        check a = .error e ∧ l.forM check = .error e := by
  induction l with
  | nil => exact .inl ⟨List.forall_mem_nil _, rfl⟩
  | cons a l ih =>
    have hforM : (a :: l).forM check = (check a >>= fun _ => l.forM check) := rfl
    rw [hforM]
    cases ha : check a with
    | error e => exact .inr ⟨[], a, l, e, rfl, List.forall_mem_nil _, ha, rfl⟩
    | ok =>
      obtain ⟨hall, hl⟩ | ⟨before, b, after, e, rfl, hbefore, hb, hl⟩ := ih
      · exact .inl ⟨List.forall_mem_cons.2 ⟨ha, hall⟩, hl⟩
      · exact .inr ⟨a :: before, b, after, e, rfl, List.forall_mem_cons.2 ⟨ha, hbefore⟩, hb, hl⟩

theorem exports_of_checkFunction {e : Entry} (h : Binary.checkFunction m e = .ok ()) :
    m.Exports Item.IsFunction e.name := by
  obtain ⟨hexports, -⟩ | ⟨fault, -, herror⟩ := checkFunction_cases m e
  · exact hexports
  · cases h.symm.trans herror

theorem loads_ofModule (m : CoreModule) (fuel : Nat) : Loads m fuel (Binary.ofModule m fuel) := by
  rw [Binary.ofModule, checkImports_eq]
  by_cases himports : m.imports = []
  · rw [if_pos himports]
    obtain ⟨hmemory, hok⟩ | ⟨fault, hlacks, herror⟩ := checkMemory_cases m
    · rw [hok]
      obtain ⟨hall, hok⟩ | ⟨before, e, after, error, hsplit, hbefore, he, herror⟩ :=
        forM_cases (Binary.checkFunction m) Entry.all
      · rw [hok]
        refine .accepted ⟨himports, hmemory, forall_functions.2 fun e => ?_⟩
        exact exports_of_checkFunction (hall e (Entry.mem_all e))
      · rw [herror]
        obtain ⟨-, hok⟩ | ⟨fault, hlacks, herror⟩ := checkFunction_cases m e
        · cases he.symm.trans hok
        · obtain rfl := Except.error.inj (he.symm.trans herror)
          refine .function (f := (e.name, e.type)) himports hmemory
            (map_split functions_eq_all hsplit) ?_ hlacks
          exact List.forall_mem_map.2 fun e he => exports_of_checkFunction (hbefore e he)
    · rw [herror]
      exact .memory himports hlacks
  · rw [if_neg himports]
    exact .imports himports

theorem Loads.ok_iff {result : Except AnalysisError Binary} (h : Loads m fuel result) :
    (∃ b, result = .ok b) ↔ Suitable m := by
  cases h with
  | accepted h => exact ⟨fun _ => h, fun _ => ⟨_, rfl⟩⟩
  | imports h => exact ⟨fun ⟨_, hb⟩ => (nomatch hb), fun hm => absurd hm.imports h⟩
  | memory _ h => exact ⟨fun ⟨_, hb⟩ => (nomatch hb), fun hm => absurd hm.memory h.not_exports⟩
  | function _ _ hsplit _ h =>
    refine ⟨fun ⟨_, hb⟩ => (nomatch hb), fun hm => absurd (hm.functions _ ?_) h.not_exports⟩
    rw [hsplit]
    exact List.mem_append_right _ List.mem_cons_self

theorem Loads.eq_of_ok {b : Binary} (h : Loads m fuel (.ok b)) : b = ⟨m, fuel⟩ := by
  cases h
  rfl

end Load

section Instantiate

theorem body?_eq_some_iff {name : String} {type : FuncType} {body : Body} :
    Instance.body? m name type = some body ↔ m.item? name = some (.func type body) := by
  unfold Instance.body?
  split
  · next found body' h =>
    rw [h]
    by_cases htype : found = type <;> simp [htype]
  · next hother => exact ⟨nofun, fun h => absurd h (hother type body)⟩

theorem hasEntry_iff {e : Entry} :
    Instance.hasEntry m e ↔ m.Exports (Item.HasType e.type) e.name := by
  rw [Instance.hasEntry, Option.isSome_iff_exists]
  simp only [body?_eq_some_iff, CoreModule.Exports, Item.HasType]
  constructor
  · rintro ⟨body, h⟩
    exact ⟨_, h, body, rfl⟩
  · rintro ⟨_, h, body, rfl⟩
    exact ⟨body, h⟩

theorem mem_lookups (e : Entry) : e ∈ Instance.lookups := by cases e <;> decide

theorem instantiates_resolve (hm : Suitable m) (hmemory : OwnMemory m) (store : Store) :
    Instantiates m (Instance.resolve m fuel store) := by
  unfold Instance.resolve
  split
  · next e hfind =>
    obtain ⟨he, before, after, hsplit, hbefore⟩ := List.find?_eq_some_iff_append.1 hfind
    obtain ⟨item, hitem, type, body, rfl⟩ := hm.functions _ (mem_functions e)
    refine .wrongType (f := (e.name, e.type)) hmemory (map_split functions_eq_lookups hsplit) ?_
      hitem ?_
    · exact List.forall_mem_map.2 fun e he => hasEntry_iff.1 (by simpa using hbefore e he)
    · rintro rfl
      have hhas : Instance.hasEntry m e := hasEntry_iff.2 ⟨_, hitem, body, rfl⟩
      rw [hhas] at he
      cases he
  · next hfind =>
    have hall (e : Entry) : m.Exports (Item.HasType e.type) e.name :=
      hasEntry_iff.1 (by simpa using List.find?_eq_none.1 hfind e (mem_lookups e))
    refine .made hmemory (forall_functions.2 hall) fun e => ?_
    obtain ⟨item, hitem, body, rfl⟩ := hall e
    simp only [hitem, body?_eq_some_iff.2 hitem, Option.getD_some]

theorem ownMemory_of_checkMemory (h : (Instance.checkMemory m).toBool) : OwnMemory m := by
  unfold Instance.checkMemory at h
  split at h
  · assumption
  · cases h

theorem instantiates_connect (hm : Suitable m) (store : Store) :
    Instantiates m (Instance.checkMemory m >>= fun _ => Instance.resolve m fuel store) := by
  obtain ⟨item, hitem, shared, rfl⟩ := hm.memory
  rw [Instance.checkMemory, hitem]
  cases shared with
  | false => exact instantiates_resolve hm hitem store
  | true => exact .shared hitem

theorem isSome_placed_iff :
    (m.segments.foldlM CoreModule.place { m.initial with fuel }).isSome ↔
      ∀ segment ∈ m.segments, segment.Fits m.initial := by
  have hfuel (segment : Segment) :
      segment.Fits { m.initial with fuel } ↔ segment.Fits m.initial := by
    cases segment <;> rfl
  simp only [CoreModule.isSome_places_iff, hfuel]

theorem Starts.exists_store (h : Starts m fuel) : ∃ store, (⟨m, fuel⟩ : Binary).instantiate =
    (Instance.checkMemory m >>= fun _ => Instance.resolve m fuel store) := by
  obtain ⟨placed, hplaced⟩ := Option.isSome_iff_exists.1 (isSome_placed_iff.2 h.fits)
  have hplaceAll : Instance.placeAll m fuel = .ok placed := by rw [Instance.placeAll, hplaced]
  have hinstantiate : (⟨m, fuel⟩ : Binary).instantiate = (Instance.start m placed >>= fun store =>
      Instance.checkMemory m >>= fun _ => Instance.resolve m fuel store) := by
    rw [Binary.instantiate, hplaceAll]
    rfl
  rw [hinstantiate, Instance.start]
  split
  · exact ⟨placed, rfl⟩
  · next body hstart =>
    have hruns := h.runs body placed hstart hplaceAll
    split
    · next store _ => exact ⟨store, rfl⟩
    · next htrap =>
      rw [htrap] at hruns
      cases hruns

theorem Instantiates.ok_iff {result : Except AnalysisError Instance} (h : Instantiates m result) :
    (∃ i, result = .ok i) ↔ OwnMemory m ∧ WellTyped m := by
  cases h with
  | made hmemory h => exact ⟨fun _ => ⟨hmemory, h⟩, fun _ => ⟨_, rfl⟩⟩
  | shared h => exact ⟨fun ⟨_, hi⟩ => (nomatch hi), fun ⟨hown, _⟩ => nomatch h.symm.trans hown⟩
  | wrongType _ hsplit _ hitem htype =>
    refine ⟨fun ⟨_, hi⟩ => (nomatch hi), fun ⟨_, hm⟩ => ?_⟩
    obtain ⟨item, hitem', body, rfl⟩ := hm _ (hsplit ▸ List.mem_append_right _ List.mem_cons_self)
    cases hitem.symm.trans hitem'
    exact absurd rfl htype

end Instantiate

theorem bind_error_iff {ε α β γ : Type} {x : Except ε α} {f : α → Except ε β} {g : α → Except ε γ}
    {e : ε} (h : ∀ a, f a = .error e ↔ g a = .error e) :
    (x >>= f) = .error e ↔ (x >>= g) = .error e := by
  cases x with
  | error e' =>
    show Except.error e' = .error e ↔ Except.error e' = .error e
    rw [Except.error.injEq, Except.error.injEq]
  | ok a => exact h a

section Dealloc
variable (h : AgreesButForDealloc m m')
include h

theorem AgreesButForDealloc.item?_name (e : Entry) : m'.item? e.name = m.item? e.name :=
  h.item _ (by cases e <;> decide)

theorem AgreesButForDealloc.ofModule_error_iff (e : AnalysisError) :
    Binary.ofModule m' fuel = .error e ↔ Binary.ofModule m fuel = .error e := by
  have himports : Binary.checkImports m' = Binary.checkImports m := by
    rw [checkImports_eq, checkImports_eq, h.imports]
  have hmemory : Binary.checkMemory m' = Binary.checkMemory m := by
    rw [Binary.checkMemory, Binary.checkMemory, h.item _ (by decide)]
  have hfunction : Binary.checkFunction m' = Binary.checkFunction m := by
    funext e
    rw [Binary.checkFunction, Binary.checkFunction, h.item?_name]
  rw [Binary.ofModule, Binary.ofModule, himports, hmemory, hfunction]
  cases Binary.checkImports m with
  | error e => exact Iff.rfl
  | ok =>
    cases Binary.checkMemory m with
    | error e => exact Iff.rfl
    | ok =>
      cases Entry.all.forM (Binary.checkFunction m) with
      | error e => exact Iff.rfl
      | ok => exact ⟨nofun, nofun⟩

theorem AgreesButForDealloc.instantiate_error_iff (e : AnalysisError) :
    (⟨m', fuel⟩ : Binary).instantiate = .error e ↔
      (⟨m, fuel⟩ : Binary).instantiate = .error e := by
  have hplaced : Instance.placeAll m' fuel = Instance.placeAll m fuel := by
    rw [Instance.placeAll, Instance.placeAll, h.segments, h.initial]
  have hstarted : Instance.start m' = Instance.start m := by
    funext store
    rw [Instance.start, Instance.start, h.start]
  have hmemory : Instance.checkMemory m' = Instance.checkMemory m := by
    rw [Instance.checkMemory, Instance.checkMemory, h.item _ (by decide)]
  have hhas (e : Entry) : Instance.hasEntry m' e = Instance.hasEntry m e := by
    rw [Instance.hasEntry, Instance.hasEntry, Instance.body?, Instance.body?, h.item?_name]
  have hresolved (store : Store) : Instance.resolve m' fuel store = .error e ↔
      Instance.resolve m fuel store = .error e := by
    simp only [Instance.resolve, hhas]
    cases Instance.lookups.find? (!Instance.hasEntry m ·) with
    | some e => exact Iff.rfl
    | none => exact ⟨nofun, nofun⟩
  rw [Binary.instantiate, Binary.instantiate, hplaced, hstarted, hmemory]
  refine bind_error_iff fun placed => bind_error_iff fun started => bind_error_iff fun _ => ?_
  exact hresolved started

end Dealloc

theorem ofModule_admission (m : CoreModule) (fuel : Nat) :
    Admission m fuel (Binary.ofModule m fuel) := by
  have hloads := loads_ofModule m fuel
  have hok {b : Binary} (hb : Binary.ofModule m fuel = .ok b) : Suitable m ∧ b = ⟨m, fuel⟩ :=
    ⟨hloads.ok_iff.1 ⟨b, hb⟩, Loads.eq_of_ok (hb ▸ hloads)⟩
  have hinstantiates (b : Binary) (hb : Binary.ofModule m fuel = .ok b) (hstarts : Starts m fuel) :
      Instantiates m b.instantiate := by
    obtain ⟨hm, rfl⟩ := hok hb
    obtain ⟨store, hstore⟩ := hstarts.exists_store
    rw [hstore]
    exact instantiates_connect hm store
  constructor
  case ok_iff => exact hloads.ok_iff
  case loads => exact hloads
  case instantiate_ok_iff =>
    exact fun b hb hstarts => (hinstantiates b hb hstarts).ok_iff
  case instantiates => exact hinstantiates
  case calls => exact fun host s source _ => host.takes_of_mem_calls s source
  case dealloc =>
    intro m' hm' e
    refine ⟨hm'.ofModule_error_iff e, fun b hb => ?_⟩
    obtain ⟨-, rfl⟩ := hok hb
    exact hm'.instantiate_error_iff e

theorem ofBytes_eq_ofModule [Engine] {bytes : List UInt8} {m : CoreModule}
    (hpasses : checkCoreModule bytes = .ok ()) (hcompiles : Engine.compile bytes = some m)
    (fuel : Nat) : Binary.ofBytes bytes fuel = Binary.ofModule m fuel := by
  rw [Binary.ofBytes, hpasses, hcompiles]
  rfl

theorem ofBytes_eq_ok_iff [Engine] {bytes : List UInt8} {fuel : Nat} {b : Binary} :
    Binary.ofBytes bytes fuel = .ok b ↔ checkCoreModule bytes = .ok () ∧
      ∃ m, Engine.compile bytes = some m ∧ Suitable m ∧ b = ⟨m, fuel⟩ := by
  constructor
  · intro h
    obtain ⟨_, hpasses, h⟩ := ok_of_bind_eq_ok h
    split at h
    · next m hcompiles =>
      have hloads := loads_ofModule m fuel
      rw [h] at hloads
      exact ⟨hpasses, m, hcompiles, hloads.ok_iff.1 ⟨b, rfl⟩, hloads.eq_of_ok⟩
    · cases h
  · rintro ⟨hpasses, m, hcompiles, hsuitable, rfl⟩
    rw [ofBytes_eq_ofModule hpasses hcompiles]
    have hloads := loads_ofModule m fuel
    obtain ⟨b, hb⟩ := hloads.ok_iff.2 hsuitable
    rw [hb] at hloads ⊢
    rw [hloads.eq_of_ok]

/-- Whatever the engine compiles the bytes of a core module to, its checks fit together. -/
theorem ofBytes_admission [Engine] {bytes : List UInt8} {m : CoreModule}
    (hpasses : checkCoreModule bytes = .ok ()) (hcompiles : Engine.compile bytes = some m)
    (fuel : Nat) : Admission m fuel (Binary.ofBytes bytes fuel) :=
  ofBytes_eq_ofModule hpasses hcompiles fuel ▸ ofModule_admission m fuel

section Stub

/-- The function of the stub that an entry is. Behind those that give the address of the source,
its first byte and zero come the loads of fields. -/
def stubIndex : Entry → UInt8
  | .alloc => 0
  | .compile => 1
  | .hover | .definition | .references => 2
  | .spansGet => 3
  | .resultOk | .resultError | .bufLen | .errorMsgLen | .spanColumnFrom | .hoverSpan => 5
  | .errorSpan | .spanLineTo => 6
  | .spanColumnTo => 7
  | _ => 4

/-- A binary with a table of one entry, which is filled from the offset on. The first character of
a source is the handle of its result: a module for an s, an error for an f, and nothing of use for
others. Where it should take memory back it has its memory. -/
def stub (memory : List UInt8) (offset : UInt8) : List UInt8 :=
  let type (arity : Nat) :=
    0x60 :: (Writer.vector (List.replicate arity [0x7F]) ++ Writer.vector [[0x7F]])
  let exported (name : String) (kind index : UInt8) := Writer.name name.toList ++ [kind, index]
  let code (ops : List UInt8) := Writer.sized (0x00 :: ops ++ [0x0B])
  let const (n : Int) : List UInt8 := 0x41 :: Writer.signed n
  let firstByte := code [0x20, 0x00, 0x2D, 0x00, 0x00]
  let field (k : UInt8) := code [0x20, 0x00, 0x28, 0x02, 4 * k]
  let words (ns : List UInt8) : List UInt8 := ns.flatMap fun n => [n, 0, 0, 0]
  let placed (address : Nat) (bytes : List UInt8) : List UInt8 :=
    0x00 :: const address ++ 0x0B :: Writer.sized bytes
  Writer.module [
    Writer.framed 1 (Writer.vector ([1, 2, 3].map type)),
    Writer.framed 3 (Writer.vector [[0], [0], [2], [1], [0], [0], [0], [0]]),
    Writer.framed 4 (Writer.vector [[0x70, 0x00, 0x01]]),
    Writer.framed 5 (Writer.vector [memory]),
    Writer.framed 7 (Writer.vector (exported memoryName 2 0 :: exported deallocName 2 0 ::
      Entry.all.map fun e => exported e.name 0 (stubIndex e))),
    Writer.framed 9 (Writer.vector [[0x00, 0x41, offset, 0x0B] ++ Writer.vector [[0x00]]]),
    Writer.framed 10 (Writer.vector
      ([code (const 1024), firstByte, firstByte, code (const 0)] ++ [0, 1, 2, 3].map field)),
    Writer.framed 11 (Writer.vector [
      placed 's'.toNat (words [1, 16]), placed 16 (words [48, 8]), placed 48 (Writer.module []),
      placed 'f'.toNat (words [0, 32]), placed 32 (words [56, 4, 64]),
      placed 56 (Utf8.encode "oops".toList), placed 64 (words [1, 1, 1, 2])])]

/-- The bytes are loaded, the data fits, nothing runs at the start, and the functions have their
types. -/
structure Sound (bytes : List UInt8) (b : Binary) : Prop where
  passes : checkCoreModule bytes = .ok ()
  compiles : CoreModule.ofBytes? bytes = some b.module
  loaded : @Binary.ofBytes .standard bytes 100 = .ok b
  data : ∀ address content, .bytes address content ∈ b.module.segments →
    (Segment.bytes address content).Fits b.module.initial
  start : b.module.start = none
  typed : WellTyped b.module

def stubChecks (bytes : List UInt8) (more : Binary → Bool) : Bool :=
  (checkCoreModule bytes).toBool && (CoreModule.ofBytes? bytes).any fun m =>
    (Binary.ofModule m 100).toBool && m.segments.all (fun
      | .bytes address content => address + content.length ≤ m.initial.memory.size
      | .references .. => true) &&
    m.start.isNone && Instance.lookups.all (Instance.hasEntry m) && more ⟨m, 100⟩

theorem ok_of_toBool {ε α : Type} {result : Except ε α} (h : result.toBool) :
    ∃ a, result = .ok a := by
  cases result with
  | error e => cases h
  | ok a => exact ⟨a, rfl⟩

theorem sound_of_stubChecks {bytes : List UInt8} {more : Binary → Bool}
    (h : stubChecks bytes more) : ∃ b, Sound bytes b ∧ more b := by
  obtain ⟨hpasses, h⟩ := Bool.and_eq_true_iff.1 h
  obtain ⟨m, hm, h⟩ := (Option.any_eq_true _ _).1 h
  simp only [Bool.and_eq_true, List.all_eq_true, Option.isNone_iff_eq_none] at h
  obtain ⟨⟨⟨⟨hloaded, hdata⟩, hstart⟩, htyped⟩, hmore⟩ := h
  obtain ⟨_, hpasses⟩ := ok_of_toBool hpasses
  obtain ⟨b, hloaded⟩ := ok_of_toBool hloaded
  obtain rfl : b = ⟨m, 100⟩ := (hloaded ▸ loads_ofModule m 100).eq_of_ok
  refine ⟨⟨m, 100⟩, ⟨hpasses, hm, ?_, ?_, hstart, ?_⟩, hmore⟩
  · exact (@ofBytes_eq_ofModule .standard _ _ hpasses hm 100).trans hloaded
  · intro address content hmem
    show address + content.length ≤ m.initial.memory.size
    exact of_decide_eq_true (hdata _ hmem)
  · exact forall_functions.2 fun e => hasEntry_iff.1 (htyped e (mem_lookups e))

theorem ofBytes_admission_stub : ∃ m, checkCoreModule (stub [0x00, 0x01] 0) = .ok () ∧
    Engine.standard.compile (stub [0x00, 0x01] 0) = some m ∧ Starts m 100 ∧ OwnMemory m ∧
      WellTyped m ∧ Admission m 100 (@Binary.ofBytes .standard (stub [0x00, 0x01] 0) 100) := by
  have hchecks : stubChecks (stub [0x00, 0x01] 0) fun b =>
      (b.module.segments.foldlM CoreModule.place { b.module.initial with fuel := 100 }).isSome &&
        (Instance.checkMemory b.module).toBool := by
    decide +kernel
  obtain ⟨b, hsound, h⟩ := sound_of_stubChecks hchecks
  obtain ⟨hplaced, hmemory⟩ := Bool.and_eq_true_iff.1 h
  refine ⟨b.module, hsound.passes, hsound.compiles, ⟨isSome_placed_iff.1 hplaced, ?_⟩, ?_,
    hsound.typed, @ofBytes_admission .standard _ _ hsound.passes hsound.compiles 100⟩
  · intro body store hbody
    rw [hsound.start] at hbody
    cases hbody
  · exact ownMemory_of_checkMemory hmemory

def rejection? (b : Binary) : Option AnalysisError :=
  match b.instantiate with
  | .error e => some e
  | .ok _ => none

theorem instantiate_of_rejection? {b : Binary} {e : AnalysisError} (h : rejection? b = some e) :
    b.instantiate = .error e := by
  unfold rejection? at h
  split at h
  · next herror => rw [herror, Option.some.inj h]
  · cases h

/-- Neither a table that is filled beyond its end nor a memory that is shared is instantiated, with
nothing wrong with the data or the functions. -/
theorem stubs_rejected :
    (∃ b, Sound (stub [0x00, 0x01] 1) b ∧
      b.instantiate = .error (.module .segmentOutOfBounds)) ∧
    ∃ b, Sound (stub [0x03, 0x01, 0x01] 0) b ∧
      b.instantiate = .error (.missingExport memoryName .notExported) := by
  have hfilled : stubChecks (stub [0x00, 0x01] 1) fun b =>
      rejection? b = some (.module .segmentOutOfBounds) := by decide +kernel
  have hshared : stubChecks (stub [0x03, 0x01, 0x01] 0) fun b =>
      rejection? b = some (.missingExport memoryName .notExported) := by decide +kernel
  obtain ⟨b, hsound, hrejected⟩ := sound_of_stubChecks hfilled
  obtain ⟨b', hsound', hrejected'⟩ := sound_of_stubChecks hshared
  exact ⟨⟨b, hsound, instantiate_of_rejection? (of_decide_eq_true hrejected)⟩,
    b', hsound', instantiate_of_rejection? (of_decide_eq_true hrejected')⟩

end Stub

end SplitEditor
