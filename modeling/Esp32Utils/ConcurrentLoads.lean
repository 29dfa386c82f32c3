import Esp32Utils.Interaction.GuardedRuns
import Esp32Utils.Interaction.Interleaving
import Esp32Utils.LoadableContents
import Mathlib.Data.Finset.Insert
import Mathlib.Data.List.Infix

/-! # Loads beside saves

Tasks that share a manipulator in MD5 mode, which has no lock. Each takes one call on the driver
at a time, in any order with the others; any call may fail and power may go between two of them.
With one writer at a time for a name, a load returns what it might return alone, after the calls
that had begun at some moment while it ran. Two writers of a name make bytes loadable that
nobody stored. -/
namespace ConcurrentLoads

open ByteStrings InteractionProgram InteractionCrash InteractionDiscipline InteractionLayers
open InteractionInterleaving GuardedRuns FileSystemDriver SafeFileManipulator FallibleDriver
open FilesTouched AppendHistories LoadableContents

inductive Task where
  | writing (m : Mutation) (rest : DriverProgram Bool)
  | loading (filename : Bytes) (rest : DriverProgram (Bool × Bytes))

/-- The disk, the tasks, for each name the calls that change it, in the order in which they began,
and for each load what that list was at the moments since the load began. -/
structure State (T : Type) where
  disk : Disk
  task : T → Option Task
  log : Bytes → List Event
  moments : T → Finset (List Event)

inductive Act (T : Type) where
  | write (i : T) (m : Mutation)
  | load (i : T) (filename : Bytes)
  | call (i : T) (x : Fault)
  | finish (i : T)
  | powerLoss

/-- The last call of this kind without a result gets one. -/
def settle (m : Mutation) (b : Bool) : List Event → List Event
  | [] => []
  | e :: h =>
    if e = .called m none ∧ .called m none ∉ h then .called m (some b) :: h else e :: settle m b h

theorem settle_last (m : Mutation) (b : Bool) (h : List Event) :
    settle m b (h ++ [.called m none]) = h ++ [.called m (some b)] := by
  induction h with
  | nil => simp [settle]
  | cons e h ih => simp [settle, ih]

variable {T : Type} {getMD5String : Bytes → Bytes} {exclusive : Bool}

def State.enter [DecidableEq T] (s : State T) (i : T) (t : Option Task) : State T :=
  { s with task := Function.update s.task i t }

def State.loads (s : State T) (i : T) : Option Bytes :=
  match s.task i with
  | some (.loading f _) => some f
  | _ => none

def State.record (s : State T) (f : Bytes) (h : List Event) : State T :=
  { s with
    log := Function.update s.log f h
    moments := fun i => if s.loads i = some f then insert h (s.moments i) else s.moments i }

def initial : State T := ⟨∅, fun _ => none, fun _ => [], fun _ => ∅⟩

def Free (s : State T) (f : Bytes) : Prop :=
  ∀ i m rest, s.task i = some (.writing m rest) → m.filename ≠ f

def Enabled (exclusive : Bool) (s : State T) : Act T → Prop
  | .write i m => s.task i = none ∧ (exclusive = true → Free s m.filename)
  | .load i _ => s.task i = none
  | .call i _ => match s.task i with
    | some (.writing _ (.call _ _)) => True
    | some (.loading _ (.call _ _)) => True
    | _ => False
  | .finish i => match s.task i with
    | some (.writing _ (.ret _)) => True
    | some (.loading _ (.ret _)) => True
    | _ => False
  | .powerLoss => True

def next [DecidableEq T] (getMD5String : Bytes → Bytes) (s : State T) : Act T → State T
  | .write i m =>
    (s.record m.filename (s.log m.filename ++ [.called m none])).enter i
      (some (.writing m (m.program getMD5String)))
  | .load i f =>
    { s.enter i (some (.loading f (loadContentFromFile getMD5String .modeUseMd5 f))) with
      moments := Function.update s.moments i {s.log f} }
  | .call i x => match s.task i with
    | some (.writing m (.call c k)) =>
      { s.enter i (some (.writing m (k (fallible c x s.disk).1))) with
        disk := (fallible c x s.disk).2 }
    | some (.loading f (.call c k)) =>
      { s.enter i (some (.loading f (k (fallible c x s.disk).1))) with
        disk := (fallible c x s.disk).2 }
    | _ => s
  | .finish i => match s.task i with
    | some (.writing m (.ret b)) =>
      (s.record m.filename (settle m b (s.log m.filename))).enter i none
    | some (.loading _ (.ret _)) => s.enter i none
    | _ => s
  | .powerLoss => { s with task := fun _ => none }

def system (getMD5String : Bytes → Bytes) (exclusive : Bool) (T : Type) [DecidableEq T] :
    System (State T) (Act T) where
  initial := initial
  Enabled := Enabled exclusive
  next := next getMD5String

section Files

variable {f g : Bytes} {d e : Disk} {c : DriverCall}

def SameFiles (f : Bytes) (d e : Disk) : Prop :=
  ∀ name ∈ physicalNames .modeUseMd5 f, d.lookup name = e.lookup name

abbrev On (f : Bytes) : DriverCall → Prop := OnFiles (· ∈ physicalNames .modeUseMd5 f)

theorem fallible_isLocal (f : Bytes) : Local fallible (SameFiles f) (On f) := by
  intro c x d e hc hsame
  obtain ⟨name, hname, hon⟩ := onFiles_name hc
  obtain ⟨hans, hlookup⟩ := fallible_local hon x (hsame name hname)
  refine ⟨hans, fun other hother => ?_⟩
  by_cases heq : other = name
  · rw [heq, hlookup]
  · rw [fallible_frame hon x heq, fallible_frame hon x heq]
    exact hsame other hother

theorem physical_disjoint (hfg : g ≠ f) {name : Bytes}
    (hname : name ∈ physicalNames .modeUseMd5 f) : name ∉ physicalNames .modeUseMd5 g := by
  intro hg
  simp only [physicalNames, List.mem_cons, List.not_mem_nil, or_false] at hname hg
  rcases hname with rfl | rfl <;> rcases hg with hg | hg
  · exact hfg (mainFileName_inj.mp hg).symm
  · exact mainFileName_ne_mainMd5FileName _ _ hg
  · exact mainMd5FileName_ne_mainFileName _ _ hg
  · exact hfg (mainMd5FileName_inj.mp hg).symm

theorem fallible_elsewhere (hc : On f c) (x : Fault) (hfg : g ≠ f) (d : Disk) :
    SameFiles g (fallible c x d).2 d := by
  obtain ⟨name, hname, hon⟩ := onFiles_name hc
  intro other hother
  have hne : other ≠ name := fun heq => physical_disjoint hfg hname (heq ▸ hother)
  exact fallible_frame hon x hne d

theorem SameFiles.sound {L : ℕ} {h : List Event} (hs : SameFiles f d e)
    (he : Sound getMD5String L f h e) : Sound getMD5String L f h d :=
  he.congr (hs _ (by simp [physicalNames])) (hs _ (by simp [physicalNames]))

end Files

section Loads

variable {L : ℕ} {f c : Bytes} {m : Finset (List Event)}

/-- At one of the moments the name was as the disk has it now. -/
def Seen (getMD5String : Bytes → Bytes) (L : ℕ) (f : Bytes) (m : Finset (List Event)) (d : Disk) :
    Prop :=
  ∃ h ∈ m, Sound getMD5String L f h d

def Returned (getMD5String : Bytes → Bytes) (f : Bytes) (r : Bool × Bytes)
    (m : Finset (List Event)) : Prop :=
  ∀ c, r = (true, c) → Set.InjOn getMD5String {x | ∃ h ∈ m, Assembled f h x} →
    ∃ h ∈ m, Whole f h c

theorem Returned.mono {r : Bool × Bytes} {m' : Finset (List Event)} (hm : m ⊆ m')
    (h : Returned getMD5String f r m) : Returned getMD5String f r m' := by
  intro c hr hinj
  have hsub : {x | ∃ h ∈ m, Assembled f h x} ⊆ {x | ∃ h ∈ m', Assembled f h x} := by
    rintro x ⟨h, hh, hx⟩
    exact ⟨h, hm hh, hx⟩
  obtain ⟨h, hh, hc⟩ := h c hr (hinj.mono hsub)
  exact ⟨h, hm hh, hc⟩

theorem returned_failure : Returned getMD5String f (false, []) m :=
  fun c hr => by cases hr

/-- The digest was sound when it was read, and the data that has it when that was read later. -/
theorem returned_content (hL : ∀ x, (getMD5String x).length = L) {m' : Finset (List Event)}
    (hm : m ⊆ m') {d d' : Disk} {x : Bytes} (hd : Seen getMD5String L f m d)
    (hd' : Seen getMD5String L f m' d')
    (hdigest : d.lookup (mainMd5FileName f) = some (getMD5String x))
    (hdata : d'.lookup (mainFileName f) = some x) : Returned getMD5String f (true, x) m' := by
  intro c hr hinj
  obtain rfl := congrArg Prod.snd hr
  obtain ⟨h, hh, hsound⟩ := hd
  obtain ⟨h', hh', hsound'⟩ := hd'
  have hx := hsound'.data
  rw [dataOf, hdata, Option.getD_some] at hx
  rcases hsound.digest _ hdigest with hlt | ⟨y, heq, hy⟩
  · rw [hL] at hlt
    exact absurd hlt (lt_irrefl L)
  · obtain rfl := hinj ⟨h', hh', hx⟩ ⟨h, hm hh, hy.assembled⟩ heq
    exact ⟨h, hm hh, hy⟩

theorem read_lookup {name bytes : Bytes} {x : Fault} {d : Disk}
    (h : (fallible (.readEntireFileToString name) x d).1 = some bytes) :
    d.lookup name = some bytes := by
  cases x with
  | ok => exact h
  | fail left => cases h

theorem load_learns (hL : ∀ x, (getMD5String x).length = L) :
    Learns fallible (Seen getMD5String L f) (Returned getMD5String f)
      (loadContentFromFile getMD5String .modeUseMd5 f) m := by
  refine Learns.bind (learns_of_forall fun found m => ?_)
  cases found with
  | false => exact returned_failure
  | true =>
    intro m₁ _ d₁ hd₁ x₁
    cases hmd5 : (fallible (.readEntireFileToString (mainMd5FileName f)) x₁ d₁).1 with
    | none => exact returned_failure
    | some md5 =>
      intro m₂ hm₂ d₂ hd₂ x₂
      cases hdata : (fallible (.readEntireFileToString (mainFileName f)) x₂ d₂).1 with
      | none => exact returned_failure
      | some fileContent =>
        change Learns _ _ _ (if getMD5String fileContent = md5 then .ret (true, fileContent)
          else .ret (false, [])) m₂
        split
        · rename_i heq
          subst heq
          exact returned_content hL hm₂ hd₁ hd₂ (read_lookup hmd5) (read_lookup hdata)
        · exact returned_failure

end Loads

section Invariant

variable {L : ℕ} {s : State T} {i : T} {m : Mutation} {f : Bytes}

/-- A writer is where it would be alone since its name was last free. -/
def Writes (getMD5String : Bytes → Bytes) (L : ℕ) (s : State T) (m : Mutation)
    (rest : DriverProgram Bool) : Prop :=
  ∃ h, s.log m.filename = h ++ [.called m none] ∧
    Alone fallible (SameFiles m.filename) (On m.filename)
      (fun b t => Sound getMD5String L m.filename (h ++ [.called m (some b)]) t)
      (fun t => Sound getMD5String L m.filename (h ++ [.called m none]) t) rest s.disk

def Loads (getMD5String : Bytes → Bytes) (L : ℕ) (s : State T) (i : T) (f : Bytes)
    (rest : DriverProgram (Bool × Bytes)) : Prop :=
  s.log f ∈ s.moments i ∧ Calls Reads rest ∧
    Learns fallible (Seen getMD5String L f) (Returned getMD5String f) rest (s.moments i)

def Separate (s : State T) : Prop :=
  ∀ i j m m' rest rest', s.task i = some (.writing m rest) →
    s.task j = some (.writing m' rest') → m.filename = m'.filename → i = j

structure Inv (getMD5String : Bytes → Bytes) (L : ℕ) (s : State T) : Prop where
  separate : Separate s
  free : ∀ f, Free s f → Sound getMD5String L f (s.log f) s.disk
  writing : ∀ i m rest, s.task i = some (.writing m rest) → Writes getMD5String L s m rest
  loading : ∀ i f rest, s.task i = some (.loading f rest) → Loads getMD5String L s i f rest

theorem Inv.sound (h : Inv getMD5String L s) (f : Bytes) :
    Sound getMD5String L f (s.log f) s.disk := by
  by_cases hfree : Free s f
  · exact h.free f hfree
  · unfold Free at hfree
    push Not at hfree
    obtain ⟨i, m, rest, htask, rfl⟩ := hfree
    obtain ⟨h, hlog, halone⟩ := h.writing i m rest htask
    obtain ⟨e, hsame, he⟩ := halone.now
    rw [hlog]
    exact hsame.sound he

section Record

variable {h : List Event} {t : Option Task}

theorem record_log_self : (s.record f h).log f = h := Function.update_self ..

theorem record_log_of_ne {g : Bytes} (hg : g ≠ f) : (s.record f h).log g = s.log g :=
  Function.update_of_ne hg ..

theorem record_loads {g : Bytes} {rest : DriverProgram (Bool × Bytes)} {j : T}
    (hj : Loads getMD5String L s j g rest) (htask : s.task j = some (.loading g rest)) :
    Loads getMD5String L (s.record f h) j g rest := by
  have hloads : s.loads j = some g := by
    rw [State.loads, htask]
  obtain ⟨hmem, hreads, hlearns⟩ := hj
  by_cases hg : g = f
  · subst hg
    have hmoments : (s.record g h).moments j = insert h (s.moments j) := if_pos hloads
    refine ⟨?_, hreads, ?_⟩
    · rw [record_log_self, hmoments]
      exact Finset.mem_insert_self _ _
    · rw [hmoments]
      exact hlearns.mono (fun _ _ _ hm hr => hr.mono hm) (Finset.subset_insert _ _)
  · have hmoments : (s.record f h).moments j = s.moments j := by
      refine if_neg fun heq => hg ?_
      exact Option.some.inj (hloads.symm.trans heq)
    refine ⟨?_, hreads, ?_⟩
    · rw [record_log_of_ne hg, hmoments]
      exact hmem
    · rw [hmoments]
      exact hlearns

end Record

section Enter

variable [DecidableEq T] {t : Option Task} {j : T} {u : Task}

theorem enter_self : (s.enter i t).task i = t := Function.update_self ..

theorem enter_of_ne (hj : j ≠ i) : (s.enter i t).task j = s.task j := Function.update_of_ne hj ..

theorem entered (h : (s.enter i t).task j = some u) :
    j = i ∧ t = some u ∨ j ≠ i ∧ s.task j = some u := by
  by_cases hj : j = i
  · subst hj
    rw [enter_self] at h
    exact Or.inl ⟨rfl, h⟩
  · rw [enter_of_ne hj] at h
    exact Or.inr ⟨hj, h⟩

theorem entered_before (hj : j ≠ i) (h : s.task j = some u) : (s.enter i t).task j = some u := by
  rw [enter_of_ne hj]
  exact h

theorem Separate.enter (hs : Separate s)
    (ht : ∀ m rest, t = some (.writing m rest) → ∀ j m' rest', j ≠ i →
      s.task j = some (.writing m' rest') → m'.filename ≠ m.filename) :
    Separate (s.enter i t) := by
  intro j k m m' rest rest' hj hk hname
  rcases entered hj with ⟨hji, hj'⟩ | ⟨hji, hj'⟩ <;>
    rcases entered hk with ⟨hki, hk'⟩ | ⟨hki, hk'⟩
  · rw [hji, hki]
  · exact absurd hname.symm (ht m rest hj' k m' rest' hki hk')
  · exact absurd hname (ht m' rest' hk' j m rest hji hj')
  · exact hs j k m m' rest rest' hj' hk' hname

theorem Free.leave (hg : Free (s.enter i t) f)
    (hi : ∀ m rest, s.task i = some (.writing m rest) → m.filename ≠ f) : Free s f := by
  intro j m rest hj
  by_cases hji : j = i
  · exact hi m rest (hji ▸ hj)
  · exact hg j m rest (entered_before hji hj)

end Enter

section Steps

variable [DecidableEq T]

theorem Inv.write (hL : ∀ x, (getMD5String x).length = L) (h : Inv getMD5String L s)
    (hidle : s.task i = none) (hfree : Free s m.filename) :
    Inv getMD5String L (next getMD5String s (.write i m)) := by
  constructor
  · refine Separate.enter (s := s.record m.filename _) h.separate ?_
    rintro _ _ ⟨⟩ j m' rest' - hj
    exact hfree j m' rest' hj
  · intro g hg
    have hname : g ≠ m.filename := fun heq => hg i m _ (Function.update_self ..) heq.symm
    have hfree' : Free s g := hg.leave fun m' rest hm => by cases hidle.symm.trans hm
    have hsound := h.free g hfree'
    rw [← record_log_of_ne hname] at hsound
    exact hsound
  · intro j m' rest hj
    rcases entered hj with ⟨rfl, ⟨⟩⟩ | ⟨hji, hj⟩
    · exact ⟨s.log m.filename, record_log_self, Mutation.calls fun _ hname => hname, s.disk,
        fun _ _ => rfl, (h.free _ hfree).called_safe hL⟩
    · obtain ⟨l, hlog, halone⟩ := h.writing j m' rest hj
      refine ⟨l, ?_, halone⟩
      rw [← hlog]
      exact record_log_of_ne (hfree j m' rest hj)
  · intro j g rest hj
    rcases entered hj with ⟨rfl, ⟨⟩⟩ | ⟨hji, hj⟩
    exact record_loads (h.loading j g rest hj) hj

theorem Inv.load (hL : ∀ x, (getMD5String x).length = L) (h : Inv getMD5String L s)
    (hidle : s.task i = none) : Inv getMD5String L (next getMD5String s (.load i f)) := by
  constructor
  · refine Separate.enter h.separate ?_
    rintro _ _ ⟨⟩
  · intro g hg
    exact h.free g (hg.leave fun m' rest hm => by cases hidle.symm.trans hm)
  · intro j m' rest hj
    rcases entered hj with ⟨rfl, ⟨⟩⟩ | ⟨hji, hj⟩
    exact h.writing j m' rest hj
  · intro j g rest hj
    rcases entered hj with ⟨rfl, ⟨⟩⟩ | ⟨hji, hj⟩
    · have hmoments : (next getMD5String s (.load j f)).moments j = {s.log f} :=
        Function.update_self ..
      refine ⟨?_, loadContentFromFile_calls (fun _ _ => trivial) (fun _ _ => trivial),
        load_learns hL⟩
      rw [hmoments]
      exact Finset.mem_singleton_self _
    · have hmoments : (next getMD5String s (.load i f)).moments j = s.moments j :=
        Function.update_of_ne hji ..
      unfold Loads
      rw [hmoments]
      exact h.loading j g rest hj

theorem Inv.callWriter (h : Inv getMD5String L s) {c : DriverCall}
    {k : IFileSystemDriver.Resp c → DriverProgram Bool}
    (htask : s.task i = some (.writing m (.call c k))) (x : Fault) :
    Inv getMD5String L { s.enter i (some (.writing m (k (fallible c x s.disk).1))) with
      disk := (fallible c x s.disk).2 } := by
  obtain ⟨l, hlog, halone⟩ := h.writing i m _ htask
  have hon : On m.filename c := halone.1.1
  constructor
  · refine Separate.enter h.separate ?_
    rintro _ _ ⟨⟩ j m' rest' hji hj hname
    exact hji (h.separate j i m' m rest' _ hj htask hname)
  · intro g hg
    have hname : g ≠ m.filename := fun heq => hg i m _ enter_self heq.symm
    refine (fallible_elsewhere hon x hname s.disk).sound (h.free g (hg.leave ?_))
    intro m' rest hm
    cases htask.symm.trans hm
    exact hname.symm
  · intro j m' rest hj
    rcases entered hj with ⟨rfl, ⟨⟩⟩ | ⟨hji, hj⟩
    · exact ⟨l, hlog, halone.call (fallible_isLocal _) x⟩
    · obtain ⟨l', hlog', halone'⟩ := h.writing j m' rest hj
      have hname : m'.filename ≠ m.filename :=
        fun heq => hji (h.separate j i m' m rest _ hj htask heq)
      refine ⟨l', hlog', halone'.beside fun e he name hn => ?_⟩
      rw [fallible_elsewhere hon x hname s.disk name hn]
      exact he name hn
  · intro j g rest hj
    rcases entered hj with ⟨rfl, ⟨⟩⟩ | ⟨hji, hj⟩
    exact h.loading j g rest hj

theorem Inv.callLoad (h : Inv getMD5String L s) {c : DriverCall}
    {k : IFileSystemDriver.Resp c → DriverProgram (Bool × Bytes)}
    (htask : s.task i = some (.loading f (.call c k))) (x : Fault) :
    Inv getMD5String L { s.enter i (some (.loading f (k (fallible c x s.disk).1))) with
      disk := (fallible c x s.disk).2 } := by
  obtain ⟨hmem, hreads, hlearns⟩ := h.loading i f _ htask
  rw [fallible_reads hreads.1]
  constructor
  · refine Separate.enter h.separate ?_
    rintro _ _ ⟨⟩
  · intro g hg
    exact h.free g (hg.leave fun m' rest hm => by cases htask.symm.trans hm)
  · intro j m' rest hj
    rcases entered hj with ⟨rfl, ⟨⟩⟩ | ⟨hji, hj⟩
    exact h.writing j m' rest hj
  · intro j g rest hj
    rcases entered hj with ⟨rfl, ⟨⟩⟩ | ⟨hji, hj⟩
    · exact ⟨hmem, hreads.2 _, hlearns.call ⟨_, hmem, h.sound f⟩ x⟩
    · exact h.loading j g rest hj

theorem Inv.finishWriter (h : Inv getMD5String L s) {b : Bool}
    (htask : s.task i = some (.writing m (.ret b))) :
    Inv getMD5String L
      ((s.record m.filename (settle m b (s.log m.filename))).enter i none) := by
  obtain ⟨l, hlog, halone⟩ := h.writing i m _ htask
  obtain ⟨e, hsame, hsound⟩ := halone.done
  rw [hlog, settle_last]
  constructor
  · refine Separate.enter (s := s.record m.filename _) h.separate ?_
    rintro _ _ ⟨⟩
  · intro g hg
    by_cases hname : g = m.filename
    · subst hname
      have hlog' : ((s.record m.filename (l ++ [.called m (some b)])).enter i none).log
          m.filename = l ++ [.called m (some b)] := record_log_self
      rw [hlog']
      exact hsame.sound hsound
    · have hfree : Free s g := hg.leave fun m' rest hm => by
        cases htask.symm.trans hm
        exact Ne.symm hname
      have hsound := h.free g hfree
      rw [← record_log_of_ne hname] at hsound
      exact hsound
  · intro j m' rest hj
    rcases entered hj with ⟨rfl, ⟨⟩⟩ | ⟨hji, hj⟩
    obtain ⟨l', hlog', halone'⟩ := h.writing j m' rest hj
    have hname : m'.filename ≠ m.filename :=
      fun heq => hji (h.separate j i m' m rest _ hj htask heq)
    refine ⟨l', ?_, halone'⟩
    rw [← hlog']
    exact record_log_of_ne hname
  · intro j g rest hj
    rcases entered hj with ⟨rfl, ⟨⟩⟩ | ⟨hji, hj⟩
    exact record_loads (h.loading j g rest hj) hj

theorem Inv.finishLoad (h : Inv getMD5String L s) {r : Bool × Bytes}
    (htask : s.task i = some (.loading f (.ret r))) : Inv getMD5String L (s.enter i none) := by
  constructor
  · refine Separate.enter h.separate ?_
    rintro _ _ ⟨⟩
  · intro g hg
    exact h.free g (hg.leave fun m' rest hm => by cases htask.symm.trans hm)
  · intro j m' rest hj
    rcases entered hj with ⟨rfl, ⟨⟩⟩ | ⟨hji, hj⟩
    exact h.writing j m' rest hj
  · intro j g rest hj
    rcases entered hj with ⟨rfl, ⟨⟩⟩ | ⟨hji, hj⟩
    exact h.loading j g rest hj

omit [DecidableEq T] in
theorem Inv.powerLoss (h : Inv getMD5String L s) :
    Inv getMD5String L { s with task := fun _ => none } where
  separate i j m m' rest rest' hi := by cases hi
  free f _ := h.sound f
  writing i m rest hi := by cases hi
  loading i f rest hi := by cases hi

theorem Inv.step (hL : ∀ x, (getMD5String x).length = L) (h : Inv getMD5String L s) {a : Act T}
    (ha : Enabled true s a) : Inv getMD5String L (next getMD5String s a) := by
  cases a with
  | write i m => exact h.write hL ha.1 (ha.2 rfl)
  | load i f => exact h.load hL ha
  | call i x =>
    cases htask : s.task i with
    | none => simp [Enabled, htask] at ha
    | some t =>
      rcases t with ⟨m, _ | ⟨c, k⟩⟩ | ⟨f, _ | ⟨c, k⟩⟩
      · simp [Enabled, htask] at ha
      · have hcall := h.callWriter htask x
        simpa only [next, htask] using hcall
      · simp [Enabled, htask] at ha
      · have hcall := h.callLoad htask x
        simpa only [next, htask] using hcall
  | finish i =>
    cases htask : s.task i with
    | none => simp [Enabled, htask] at ha
    | some t =>
      rcases t with ⟨m, b | ⟨c, k⟩⟩ | ⟨f, r | ⟨c, k⟩⟩
      · have hfinish := h.finishWriter htask
        simpa only [next, htask] using hfinish
      · simp [Enabled, htask] at ha
      · have hfinish := h.finishLoad htask
        simpa only [next, htask] using hfinish
      · simp [Enabled, htask] at ha
  | powerLoss => exact h.powerLoss

end Steps

theorem inv_initial : Inv getMD5String L (initial : State T) where
  separate i j m m' rest rest' hi := by cases hi
  free f _ := sound_start f
  writing i m rest hi := by cases hi
  loading i f rest hi := by cases hi

theorem run_inv [DecidableEq T] (hL : ∀ x, (getMD5String x).length = L) {as : List (Act T)}
    (hr : (system getMD5String true T).Run as s) : Inv getMD5String L s :=
  hr.invariant inv_initial fun _ _ h ha _ => h.step hL ha

end Invariant

/-- What a load is about to return it might return alone, after the calls on the name that had
begun at one of the moments while it ran. -/
def Regular (exclusive : Bool) : Prop :=
  ∀ (getMD5String : Bytes → Bytes) (L : ℕ), (∀ x, (getMD5String x).length = L) →
    ∀ (T : Type) [DecidableEq T] (as : List (Act T)) (s : State T),
      (system getMD5String exclusive T).Run as s →
      ∀ i f c, s.task i = some (.loading f (.ret (true, c))) →
        Set.InjOn getMD5String {x | ∃ h ∈ s.moments i, Assembled f h x} →
        ∃ h ∈ s.moments i, ∃ d d', AppendHistories.Run getMD5String h d ∧
          May fallible (loadContentFromFile getMD5String .modeUseMd5 f) d (true, c) d'

theorem regular_of_exclusive : Regular true := by
  intro getMD5String L hL T _ as s hr i f c htask hinj
  obtain ⟨-, -, hlearns⟩ := (run_inv hL hr).loading i f _ htask
  obtain ⟨h, hh, hwhole⟩ := hlearns c rfl hinj
  exact ⟨h, hh, whole_loads hwhole⟩

section Overlap

/-- While task 0 saves "a", a save of "ba" by task 1 leaves its first byte. Task 0 takes the
digest of that. -/
def overlapping : List (Act (Fin 3)) :=
  [.write 0 (.save (ascii "a") (ascii "f")), .call 0 .ok,
    .write 1 (.save (ascii "ba") (ascii "f")), .call 1 (.fail (.partly 1)),
    .call 0 .ok, .call 0 .ok, .call 0 .ok,
    .load 2 (ascii "f"), .call 2 .ok, .call 2 .ok, .call 2 .ok, .call 2 .ok]

theorem run_overlapping : (system sampleMd5 false (Fin 3)).Run overlapping
    (overlapping.foldl (next sampleMd5) initial) := by
  have hrun : (system sampleMd5 false (Fin 3)).Run [] initial := .init
  refine hrun.follows ?_
  refine ⟨⟨rfl, by simp⟩, trivial, trivial, trivial, ⟨rfl, by simp⟩, trivial, ?_⟩
  refine ⟨trivial, trivial, trivial, trivial, trivial, trivial, trivial, trivial, rfl, trivial, ?_⟩
  refine ⟨trivial, trivial, trivial, trivial, trivial, trivial, trivial, trivial, trivial⟩

def bothBegun : List Event :=
  [.called (.save (ascii "a") (ascii "f")) none, .called (.save (ascii "ba") (ascii "f")) none]

variable {f x : Bytes} {h : List Event}

theorem assembled_saves (hx : Assembled f h x) (hs : ∀ e ∈ h, ∃ c, e = .called (.save c f) none) :
    x = [] ∨ ∃ c, .called (.save c f) none ∈ h ∧ x <+: c := by
  induction hx with
  | start => exact Or.inl rfl
  | @save h c p r hp _ =>
    obtain ⟨c', hc⟩ := hs _ (List.mem_append_right h List.mem_cons_self)
    cases hc
    exact Or.inr ⟨c, List.mem_append_right h List.mem_cons_self, hp⟩
  | @append h x c r pieces =>
    obtain ⟨c', hc⟩ := hs _ (List.mem_append_right h List.mem_cons_self)
    cases hc
  | delete => exact Or.inl rfl
  | formatted => exact Or.inl rfl
  | other _ _ ih =>
    rcases ih fun e he => hs e (List.mem_append_left _ he) with rfl | ⟨c, hc, hx⟩
    · exact Or.inl rfl
    · exact Or.inr ⟨c, List.mem_append_left _ hc, hx⟩

theorem whole_saves (hx : Whole f h x) (hs : ∀ e ∈ h, ∃ c, e = .called (.save c f) none) :
    .called (.save x f) none ∈ h := by
  induction hx with
  | @save h c r =>
    obtain ⟨c', hc⟩ := hs _ (List.mem_append_right h List.mem_cons_self)
    cases hc
    exact List.mem_append_right h List.mem_cons_self
  | @append h x c r pieces =>
    obtain ⟨c', hc⟩ := hs _ (List.mem_append_right h List.mem_cons_self)
    cases hc
  | other _ _ ih => exact List.mem_append_left _ (ih fun e he => hs e (List.mem_append_left _ he))

theorem bothBegun_saves : ∀ e ∈ bothBegun, ∃ c, e = .called (.save c (ascii "f")) none := by
  intro e he
  rcases List.mem_cons.mp he with rfl | he
  · exact ⟨_, rfl⟩
  · exact ⟨_, List.mem_singleton.mp he⟩

theorem bothBegun_assembled (hx : Assembled (ascii "f") bothBegun x) :
    x ∈ (ascii "a").inits ++ (ascii "ba").inits := by
  rcases assembled_saves hx bothBegun_saves with rfl | ⟨c, hc, hx⟩
  · decide
  · simp only [bothBegun, List.mem_cons, List.not_mem_nil, or_false, Event.called.injEq,
      Mutation.save.injEq, and_true] at hc
    rcases hc with rfl | rfl
    · exact List.mem_append_left _ ((List.mem_inits _ _).mpr hx)
    · exact List.mem_append_right _ ((List.mem_inits _ _).mpr hx)

theorem bothBegun_distinct : Set.InjOn sampleMd5 {x | Assembled (ascii "f") bothBegun x} := by
  have hdistinct : ∀ x ∈ (ascii "a").inits ++ (ascii "ba").inits,
      ∀ y ∈ (ascii "a").inits ++ (ascii "ba").inits, sampleMd5 x = sampleMd5 y → x = y := by
    decide
  intro x hx y hy heq
  exact hdistinct x (bothBegun_assembled hx) y (bothBegun_assembled hy) heq

/-- The load returns a byte that nobody stored. -/
theorem not_regular_overlapping : ¬ Regular false := by
  intro h
  have hmoments : Set.InjOn sampleMd5 {x | ∃ h ∈ ({bothBegun} : Finset (List Event)),
      Assembled (ascii "f") h x} := by
    simpa only [Finset.mem_singleton, exists_eq_left] using bothBegun_distinct
  obtain ⟨l, hl, d, d', hr, hload⟩ := h sampleMd5 32 sampleMd5_length (Fin 3) _ _ run_overlapping 2
    (ascii "f") (ascii "b") rfl hmoments
  obtain rfl : l = bothBegun := Finset.mem_singleton.mp hl
  have hwhole := whole_of_load sampleMd5_length hr bothBegun_distinct hload
  exact absurd (whole_saves hwhole bothBegun_saves) (by decide)

end Overlap

/-- In every interleaving, with any faults and losses of power, loads return what they might
return alone, just when no two calls that change a name overlap. -/
theorem regular_iff (exclusive : Bool) : Regular exclusive ↔ exclusive = true := by
  constructor
  · intro h
    cases exclusive with
    | true => rfl
    | false => exact absurd h not_regular_overlapping
  · rintro rfl
    exact regular_of_exclusive

end ConcurrentLoads
