import Nx88.Web.Worker
/-!
# What the machine is given of the input posted

Input posted before the module exists waits for the run to begin; input posted
once it exists goes straight to the ring.  Up to the run the two change places.
-/

namespace Nx88.Web

open Lib.Runs

/-! ## What has been posted by when -/

/-- The bytes posted before the module existed. -/
def early (w : Worker) (ts : List Turn) : List U8 :=
  trace Turn.run (fun t w => if w.Module then [] else t.bytes) w ts

/-- The bytes posted between the module and the run. -/
def staged (w : Worker) (ts : List Turn) : List U8 :=
  trace Turn.run (fun t w => if w.Module ∧ ¬ w.Begun then t.bytes else []) w ts

/-- The bytes posted since the run began. -/
def later (w : Worker) (ts : List Turn) : List U8 :=
  trace Turn.run (fun t w => if w.Module ∧ w.Begun then t.bytes else []) w ts

def earlyEofs (w : Worker) (ts : List Turn) : Nat :=
  (trace Turn.run (fun t w => if w.Module then [] else t.eofs) w ts).length

/-! ## One turn -/

namespace Worker

/-- The phase tells whether the module is there and the pending list drained. -/
def Coherent (w : Worker) : Prop :=
  match w.phase with
  | .idle | .loading => w.Module = false
  | .staging _ => w.Module = true
  | .running | .exited => w.Module = true ∧ w.pendingInput = []
  | .failed => True

theorem init_coherent : init.Coherent := rfl

theorem Coherent.of_begun {w : Worker} (hw : w.Coherent) (h : w.Begun) :
    w.Module = true ∧ w.pendingInput = [] := by
  unfold Coherent at hw
  rcases h with h | h
  all_goals rw [h] at hw; exact hw

theorem pushInput_of_module {w : Worker} (h : w.Module = true) (bytes : List U8) :
    w.pushInput bytes = (w.ccall (.nxWebPush bytes), [.nxWebPush bytes]) := by
  simp [pushInput, h]

theorem pushInput_of_absent {w : Worker} (h : w.Module = false) (bytes : List U8) :
    w.pushInput bytes = ({ w with pendingInput := w.pendingInput ++ [bytes] }, []) := by
  simp [pushInput, h]

theorem pushAll_of_module {w : Worker} (h : w.Module = true) (held : List (List U8)) :
    w.pushAll held =
      ({ w with ring := held.foldl Ring.nxWebPush w.ring }, held.map .nxWebPush) := by
  induction held generalizing w with
  | nil => rfl
  | cons b rest ih =>
    have hb : (w.ccall (.nxWebPush b)).Module = true := h
    simp only [pushAll, pushInput_of_module h, ih hb]
    rfl

theorem drain_of_module {w : Worker} (h : w.Module = true) :
    w.drain =
      ({ w with
          ring := w.pendingInput.foldl Ring.nxWebPush w.ring
          pendingInput := []
          phase := .running },
        w.pendingInput.map .nxWebPush) := by
  rw [drain, pushAll_of_module h]

theorem begun_of_eq {v w : Worker} (h : v.phase = w.phase) : v.Begun ↔ w.Begun := by
  rw [Begun, Begun, h]

end Worker

open Worker

theorem calls_bytes_map (held : List (List U8)) :
    (held.map Ccall.nxWebPush).flatMap Ccall.bytes = held.flatten := by
  induction held with
  | nil => rfl
  | cons b rest ih =>
    rw [List.map_cons, List.flatMap_cons, ih]
    rfl

theorem calls_eofs_map (held : List (List U8)) :
    (held.map Ccall.nxWebPush).flatMap Ccall.eofs = [] := by
  induction held with
  | nil => rfl
  | cons b rest ih =>
    rw [List.map_cons, List.flatMap_cons, ih]
    rfl

/-- What one turn can do, from a coherent worker. -/
inductive Turned (t : Turn) (w : Worker) : Worker → List Ccall → Prop where
  /-- a message held back for want of a module -/
  | held (data : List U8) (ht : t = .input data) (hm : w.Module = false) :
      Turned t w { w with pendingInput := w.pendingInput ++ [data] } []
  /-- a message passed on -/
  | passed (data : List U8) (ht : t = .input data) (hm : w.Module = true) :
      Turned t w (w.ccall (.nxWebPush data)) [.nxWebPush data]
  | ended (ht : t = .eof) (hm : w.Module = true) :
      Turned t w (w.ccall .nxWebEof) [.nxWebEof]
  | dropped (ht : t = .eof) (hm : w.Module = false) : Turned t w w []
  /-- the pending list drained and the run begun -/
  | drained (v : Worker) (hb : t.bytes = []) (he : t.eofs = []) (hnot : ¬ w.Begun)
      (hv : v.Module = true) (hrun : v.phase = .running) (hpend : v.pendingInput = []) :
      Turned t w v (w.pendingInput.map .nxWebPush)
  /-- any other turn: no call, and the pending list kept -/
  | other (v : Worker) (hb : t.bytes = []) (he : t.eofs = [])
      (hm : w.Module = true → v.Module = true) (hpend : v.pendingInput = w.pendingInput)
      (hbegun : v.Begun ↔ w.Begun) (hv : v.Coherent) : Turned t w v []

theorem turned {t : Turn} {w : Worker} (hw : w.Coherent) (ht : t.Enabled w) :
    Turned t w (t.run w) (t.calls w) := by
  cases t with
  | start msg =>
    have hidle : w.phase = .idle := ht
    have hm : w.Module = false := by simpa [Coherent, hidle] using hw
    exact .other _ rfl rfl id rfl (by simp [Turn.run, turn, Begun, hidle]) hm
  | input data =>
    cases hm : w.Module with
    | true =>
      rw [Turn.run, Turn.calls, turn, pushInput_of_module hm]
      exact .passed data rfl hm
    | false =>
      rw [Turn.run, Turn.calls, turn, pushInput_of_absent hm]
      exact .held data rfl hm
  | eof =>
    cases hm : w.Module with
    | true =>
      simp only [Turn.run, Turn.calls, turn, hm, if_true]
      exact .ended rfl hm
    | false =>
      simp only [Turn.run, Turn.calls, turn, hm, Bool.false_eq_true, if_false]
      exact .dropped rfl hm
  | created =>
    have hload : w.phase = .loading := ht
    have hnot : ¬ w.Begun := by simp [Begun, hload]
    unfold Turn.run Turn.calls turn
    dsimp only
    split
    · rw [drain_of_module rfl]
      exact .drained _ rfl rfl hnot rfl rfl rfl
    · exact .other _ rfl rfl (fun _ => rfl) rfl (by simp [Begun, hload]) rfl
  | fetched =>
    obtain ⟨n, hstage⟩ := ht
    have hm : w.Module = true := by simpa [Coherent, hstage] using hw
    have hnot : ¬ w.Begun := by simp [Begun, hstage]
    cases n with
    | zero =>
      simp only [Turn.run, Turn.calls, turn, hstage, drain_of_module hm]
      exact .drained _ rfl rfl hnot hm rfl rfl
    | succ n =>
      simp only [Turn.run, Turn.calls, turn, hstage]
      exact .other _ rfl rfl id rfl (by simp [Begun, hstage]) hm
  | rejected =>
    have hnot : ¬ w.Begun := by
      rcases ht with h | ⟨n, h⟩
      all_goals simp [Begun, h]
    exact .other _ rfl rfl id rfl (by simp [Turn.run, turn, hnot]; simp [Begun]) trivial
  | getc => exact .other _ rfl rfl id rfl (begun_of_eq rfl) hw
  | settled =>
    have hbegun : w.Begun := .inl ht
    exact .other _ rfl rfl id rfl (iff_of_true (.inr rfl) hbegun) (hw.of_begun hbegun)

theorem turned_coherent {t : Turn} {w v : Worker} {calls : List Ccall}
    (hw : w.Coherent) (h : Turned t w v calls) : v.Coherent := by
  cases h with
  | held data ht hm =>
    unfold Coherent at hw ⊢
    -- once the run has begun the module is there, and nothing is held
    cases hp : w.phase with
    | running | exited => rw [hp] at hw; exact absurd hw.1 (by simp [hm])
    | _ => rw [hp] at hw; exact hw
  | drained _ _ _ _ hv hrun hpend => simp [Coherent, hv, hrun, hpend]
  | other _ _ _ _ _ _ hv => exact hv
  | _ => exact hw

theorem turned_module {t : Turn} {w v : Worker} {calls : List Ccall}
    (h : Turned t w v calls) (hm : w.Module = true) : v.Module = true := by
  cases h with
  | drained _ _ _ _ hv => exact hv
  | other _ _ _ hkeep => exact hkeep hm
  | _ => exact hm

theorem turned_begun {t : Turn} {w v : Worker} {calls : List Ccall}
    (h : Turned t w v calls) (hb : w.Begun) : v.Begun := by
  cases h with
  | drained _ _ _ hnot => exact absurd hb hnot
  | other _ _ _ _ _ hbegun => exact hbegun.2 hb
  | _ => exact hb

/-! ## Whole runs -/

theorem early_cons (w : Worker) (t : Turn) (ts : List Turn) :
    early w (t :: ts) = (if w.Module then [] else t.bytes) ++ early (t.run w) ts := rfl

theorem staged_cons (w : Worker) (t : Turn) (ts : List Turn) :
    staged w (t :: ts) =
      (if w.Module ∧ ¬ w.Begun then t.bytes else []) ++ staged (t.run w) ts := rfl

theorem later_cons (w : Worker) (t : Turn) (ts : List Turn) :
    later w (t :: ts) = (if w.Module ∧ w.Begun then t.bytes else []) ++ later (t.run w) ts :=
  rfl

theorem pushed_cons (w : Worker) (t : Turn) (ts : List Turn) :
    pushed w (t :: ts) = (t.calls w).flatMap Ccall.bytes ++ pushed (t.run w) ts := rfl

theorem posted_cons (t : Turn) (ts : List Turn) : posted (t :: ts) = t.bytes ++ posted ts := rfl

theorem eofCalls_cons (w : Worker) (t : Turn) (ts : List Turn) :
    eofCalls w (t :: ts) = ((t.calls w).flatMap Ccall.eofs).length + eofCalls (t.run w) ts :=
  List.length_append

theorem earlyEofs_cons (w : Worker) (t : Turn) (ts : List Turn) :
    earlyEofs w (t :: ts) =
      (if w.Module then [] else t.eofs).length + earlyEofs (t.run w) ts :=
  List.length_append

variable {w : Worker} {ts : List Turn}

theorem early_of_module (hw : w.Coherent) (hts : Along Turn.run Turn.Enabled w ts)
    (hm : w.Module = true) : early w ts = [] := by
  induction ts generalizing w with
  | nil => rfl
  | cons t ts ih =>
    have hstep := turned hw hts.1
    rw [early_cons, if_pos hm]
    exact ih (turned_coherent hw hstep) hts.2 (turned_module hstep hm)

theorem staged_of_begun (hw : w.Coherent) (hts : Along Turn.run Turn.Enabled w ts)
    (hb : w.Begun) : staged w ts = [] := by
  induction ts generalizing w with
  | nil => rfl
  | cons t ts ih =>
    have hstep := turned hw hts.1
    rw [staged_cons, if_neg (fun h => h.2 hb)]
    exact ih (turned_coherent hw hstep) hts.2 (turned_begun hstep hb)

theorem posted_eq (hw : w.Coherent) (hts : Along Turn.run Turn.Enabled w ts) :
    posted ts = early w ts ++ staged w ts ++ later w ts := by
  induction ts generalizing w with
  | nil => rfl
  | cons t ts ih =>
    have hstep := turned hw hts.1
    have hv := turned_coherent hw hstep
    rw [posted_cons, early_cons, staged_cons, later_cons, ih hv hts.2]
    by_cases hb : w.Begun
    · have hm := (hw.of_begun hb).1
      rw [early_of_module hv hts.2 (turned_module hstep hm),
        staged_of_begun hv hts.2 (turned_begun hstep hb)]
      simp [hm, hb]
    · cases hm : w.Module with
      | true =>
        rw [early_of_module hv hts.2 (turned_module hstep hm)]
        simp [hb]
      | false => simp

/-- The bytes pushed once the run has begun: what was staged comes first. -/
theorem pushed_eq (hw : w.Coherent) (hts : Along Turn.run Turn.Enabled w ts)
    (hbegun : (after Turn.run w ts).Begun) :
    pushed w ts = staged w ts ++ (w.pendingInput.flatten ++ early w ts) ++ later w ts := by
  induction ts generalizing w with
  | nil =>
    rw [(hw.of_begun hbegun).2]
    rfl
  | cons t ts ih =>
    obtain ⟨hen, hts⟩ := hts
    have hstep := turned hw hen
    have hv := turned_coherent hw hstep
    rw [pushed_cons, early_cons, staged_cons, later_cons, ih hv hts hbegun]
    generalize t.run w = v, t.calls w = calls at hstep hv hts
    cases hstep with
    | held data ht hm =>
      subst ht
      simp [hm, Turn.bytes]
    | passed data ht hm =>
      subst ht
      rw [early_of_module hv hts hm]
      by_cases hb : w.Begun
      · rw [staged_of_begun hv hts hb]
        simp [hm, hb, Turn.bytes, Ccall.bytes, (hw.of_begun hb).2, ccall]
      · simp [hm, hb, Turn.bytes, Ccall.bytes, ccall]
    | ended ht hm =>
      subst ht
      simp [Turn.bytes, Ccall.bytes, ccall]
    | dropped ht hm =>
      subst ht
      simp [Turn.bytes]
    | drained v hb he hnot hm hrun hpend =>
      rw [early_of_module hv hts hm, staged_of_begun hv hts (.inl hrun), hb, hpend,
        calls_bytes_map]
      simp
    | other v hb he hkeep hpend =>
      rw [hb, hpend]
      simp

theorem eofs_eq (hw : w.Coherent) (hts : Along Turn.run Turn.Enabled w ts) :
    (ts.flatMap Turn.eofs).length = earlyEofs w ts + eofCalls w ts := by
  induction ts generalizing w with
  | nil => rfl
  | cons t ts ih =>
    have hstep := turned hw hts.1
    rw [List.flatMap_cons, List.length_append, ih (turned_coherent hw hstep) hts.2,
      earlyEofs_cons, eofCalls_cons]
    suffices t.eofs.length =
        (if w.Module then [] else t.eofs).length + ((t.calls w).flatMap Ccall.eofs).length by
      omega
    generalize t.run w = v, t.calls w = calls at hstep
    cases hstep with
    | held data ht => subst ht; simp [Turn.eofs]
    | passed data ht => subst ht; simp [Turn.eofs, Ccall.eofs]
    | ended ht hm => subst ht; simp [Turn.eofs, Ccall.eofs, hm]
    | dropped ht hm => subst ht; simp [Turn.eofs, hm]
    | drained _ _ he => rw [he, calls_eofs_map]; simp
    | other _ _ he => rw [he]; simp

theorem run_coherent (hts : Run ts) : (after Turn.run .init ts).Coherent :=
  hts.invariant Worker.Coherent (fun _ _ hw ht => turned_coherent hw (turned hw ht))
    init_coherent

theorem parts_of_getc {us vs : List Turn} (hts : Run (us ++ .getc :: vs)) :
    (after Turn.run .init us).Begun ∧
      early .init (us ++ .getc :: vs) = early .init us ∧
      staged .init (us ++ .getc :: vs) = staged .init us := by
  obtain ⟨hus, hvs⟩ := along_append hts
  have hbegun : (after Turn.run .init us).Begun := .inl hvs.1
  have hw := run_coherent hus
  refine ⟨hbegun, ?_, ?_⟩
  · rw [early, trace_append]
    exact (congrArg (early .init us ++ ·)
      (early_of_module hw hvs (hw.of_begun hbegun).1)).trans (List.append_nil _)
  · rw [staged, trace_append]
    exact (congrArg (staged .init us ++ ·) (staged_of_begun hw hvs hbegun)).trans
      (List.append_nil _)

/-- Once the run has begun, the input has been delivered exactly when what was
posted before the module commutes with what was posted between it and the run,
and no eof came before the module. -/
theorem delivered_iff (ts : List Turn) (hts : Run ts) (hbegun : (after Turn.run .init ts).Begun) :
    Delivered ts ↔
      early .init ts ++ staged .init ts = staged .init ts ++ early .init ts ∧
        earlyEofs .init ts = 0 := by
  have hposted := posted_eq init_coherent hts
  have hpushed : pushed .init ts = staged .init ts ++ early .init ts ++ later .init ts :=
    pushed_eq init_coherent hts hbegun
  have heofs := eofs_eq init_coherent hts
  constructor
  · intro h
    have hbytes := h.bytes
    rw [hposted, hpushed] at hbytes
    have hcount := h.eofs
    exact ⟨(List.append_cancel_right hbytes).symm, by omega⟩
  · rintro ⟨hcomm, hearly⟩
    refine ⟨by rw [hposted, hpushed, hcomm], by omega, ?_⟩
    rintro us vs rfl -
    obtain ⟨hb, he, hs⟩ := parts_of_getc hts
    have hus := (along_append hts).1
    have hpre : pushed .init us = staged .init us ++ early .init us ++ later .init us :=
      pushed_eq init_coherent hus hb
    rw [posted_eq init_coherent hus, hpre, ← he, ← hs, hcomm]

/-- A first boot on which a key is typed while the emulator loads, one while an
image is fetched, and one once the machine runs. -/
def typedAhead : List Turn :=
  [.start ⟨false, 1⟩, .input [0x6C], .created, .input [0x73], .fetched, .input [0x0D], .getc]

/-- The same keys on a reboot: the images are there, nothing is awaited between
the module and the run. -/
def typedAheadRebooting : List Turn :=
  [.start ⟨true, 0⟩, .input [0x6C], .input [0x73], .created, .eof, .input [0x0D], .getc]

instance (t : Turn) (w : Worker) : Decidable (t.Enabled w) :=
  match t with
  | .start _ | .created | .getc | .settled => by unfold Turn.Enabled; infer_instance
  | .fetched =>
    match h : w.phase with
    | .staging (n + 1) => .isTrue ⟨n, h⟩
    | .staging 0 | .idle | .loading | .running | .exited | .failed =>
      .isFalse (by rintro ⟨n, hn⟩; rw [h] at hn; cases hn)
  | .rejected =>
    match h : w.phase with
    | .staging (n + 1) => .isTrue (.inr ⟨n, h⟩)
    | .loading => .isTrue (.inl h)
    | .staging 0 | .idle | .running | .exited | .failed =>
      .isFalse (by rintro (hn | ⟨n, hn⟩) <;> rw [h] at hn <;> cases hn)
  | .input _ | .eof => .isTrue trivial

theorem delivered_typedAheadRebooting :
    Run typedAheadRebooting ∧ Delivered typedAheadRebooting :=
  ⟨by decide, (delivered_iff typedAheadRebooting (by decide) (by decide)).2 (by decide)⟩

/-- The key typed while the image was fetched overtakes the one typed before it,
and an eof posted while the emulator loads is lost. -/
theorem typedAhead_not_delivered :
    (Run typedAhead ∧ (after Turn.run .init typedAhead).Begun ∧
        posted typedAhead = [0x6C, 0x73, 0x0D] ∧
        pushed .init typedAhead = [0x73, 0x6C, 0x0D] ∧ ¬ Delivered typedAhead) ∧
      Run [.start ⟨true, 0⟩, .eof, .created] ∧
        ¬ Delivered [.start ⟨true, 0⟩, .eof, .created] := by
  refine ⟨⟨by decide, by decide, by decide, by decide, fun h => ?_⟩, by decide, fun h => ?_⟩
  · exact absurd h.bytes (by decide)
  · exact absurd h.eofs (by decide)

end Nx88.Web
