import Nx88.Console.Poll
import Nx88.Console.Cooked
/-!
# When polling tells the truth

While nothing more will come, a raw read never waits.  While something may, it
waits as soon as it is told of input that it cannot take.
-/

namespace Nx88.Console

def Con.moment (c : Con) : Moment :=
  ⟨.socket, true, none, c.eof, c.pushback, c.line, c.wire.take c.arrived, false⟩

namespace Moment

variable {m m' : Moment}

/-! ## What the reader leaves alone -/

/-- The reader takes bytes, and may find that the input has ended. -/
structure Kept (m m' : Moment) : Prop where
  transport : m'.transport = m.transport
  attached : m'.attached = m.attached
  closed : m'.closed = m.closed
  line : m'.line = m.line
  eof : m.eof = true → m'.eof = true

theorem Kept.refl (m : Moment) : Kept m m := ⟨rfl, rfl, rfl, rfl, id⟩

theorem Kept.trans {m'' : Moment} (h : Kept m m') (h' : Kept m' m'') : Kept m m'' :=
  ⟨h'.transport.trans h.transport, h'.attached.trans h.attached, h'.closed.trans h.closed,
    h'.line.trans h.line, fun heof => h'.eof (h.eof heof)⟩

/-- No wait for a client is in the way. -/
def Ensured (m : Moment) : Prop := m.transport = .socket → m.attached = true ∨ m.eof = true

theorem Ensured.kept (h : m.Ensured) (hk : Kept m m') : m'.Ensured := by
  intro hsock
  rw [hk.attached]
  exact (h (hk.transport.symm.trans hsock)).imp_right hk.eof

theorem conEnsureClient_ensured (h : m.Ensured) : m.conEnsureClient = some m := by
  rw [conEnsureClient, if_pos]
  by_cases hsock : m.transport = .socket
  · exact .inr (h hsock)
  · exact .inl hsock

theorem conInputAvail_socket (hsock : m.transport = .socket) (heof : ¬m.eof = true) :
    m.conInputAvail = m.conEnsureClient.map fun m' =>
      (if m'.attached then m.pushback.toList.length + m.line.length + m'.queue.length
        else m.pushback.toList.length + m.line.length, m') := by
  rw [conInputAvail, if_neg heof]
  dsimp only
  rw [hsock]

/-- What `con_input_avail` counts, or reports as the end of input. -/
def Ready (m : Moment) : Prop :=
  m.eof = true ∨ m.Counted ∨ m.transport = .ring ∧ m.closed = true

theorem pushback_iff (m : Moment) : m.pushback ≠ none ↔ m.pushback.toList.length ≠ 0 := by
  cases m.pushback with
  | none => exact iff_of_false (not_not.2 rfl) (not_not.2 rfl)
  | some b => exact iff_of_true (fun h => nomatch h) (Nat.one_ne_zero)

theorem line_iff (m : Moment) : m.line ≠ [] ↔ m.line.length ≠ 0 :=
  not_congr List.length_eq_zero_iff.symm

theorem counted_iff (m : Moment) :
    m.Counted ↔ m.pushback.toList.length + m.line.length + m.queue.length ≠ 0 := by
  have hqueue : m.queue ≠ [] ↔ m.queue.length ≠ 0 := not_congr List.length_eq_zero_iff.symm
  rw [Counted, pushback_iff, line_iff, hqueue]
  omega

theorem conInputAvail_ensured (h : m.Ensured) :
    ∃ n, m.conInputAvail = some (n, m) ∧ (n ≠ 0 ↔ m.Ready) := by
  rw [conInputAvail]
  cases heof : m.eof with
  | true =>
    rw [if_pos rfl]
    refine ⟨_, rfl, iff_of_true ?_ (.inl heof)⟩
    split
    · decide
    · assumption
  | false =>
    rw [if_neg Bool.false_ne_true]
    have hready : m.Ready ↔ m.Counted ∨ m.transport = .ring ∧ m.closed = true := by
      rw [Ready, heof]
      exact or_iff_right Bool.false_ne_true
    rw [hready, counted_iff]
    cases htrans : m.transport with
    | stdio =>
      refine ⟨_, rfl, (or_iff_left fun h => ?_).symm⟩
      exact nomatch h.1
    | ring =>
      refine ⟨_, rfl, ?_⟩
      split
      · next hzero => exact iff_of_true (by decide) (.inr ⟨rfl, hzero.2⟩)
      · next hzero =>
        refine ⟨.inl, fun h => h.elim id fun hclosed hz => hzero ⟨hz, hclosed.2⟩⟩
    | socket =>
      have hattached : m.attached = true := (h htrans).resolve_right (by rw [heof]; decide)
      dsimp only
      rw [conEnsureClient_ensured h, Option.map_some, if_pos hattached]
      refine ⟨_, rfl, (or_iff_left fun h => ?_).symm⟩
      exact nomatch h.1

theorem conInputReady_ensured (h : m.Ensured) :
    (m.conInputReady = some (true, m) ∧ m.Ready) ∨
      (m.conInputReady = some (false, m) ∧ ¬m.Ready) := by
  obtain ⟨n, hn, hready⟩ := conInputAvail_ensured h
  rw [conInputReady, hn, Option.map_some]
  by_cases hzero : n = 0
  · exact .inr ⟨by rw [hzero]; rfl, fun hr => hready.2 hr hzero⟩
  · refine .inl ⟨?_, hready.1 hzero⟩
    dsimp only
    rw [decide_eq_true hzero]

theorem reports_ensured (h : m.Ensured) : m.Reports ↔ m.Ready := by
  obtain ⟨n, hn, hready⟩ := conInputAvail_ensured h
  rw [← hready]
  constructor
  · rintro ⟨n', m', hn', hne⟩
    obtain ⟨rfl, -⟩ := Prod.mk.inj (Option.some.inj (hn.symm.trans hn'))
    exact hne
  · exact fun hne => ⟨n, m, hn, hne⟩

/-! ## When nothing more will come -/

/-- A receive that finds nothing fails at once. -/
def Gone (m : Moment) : Prop :=
  m.closed = true ∨ m.transport = .socket ∧ ¬m.attached = true

theorem Kept.gone_iff (hk : Kept m m') : m'.Gone ↔ m.Gone := by
  rw [Gone, Gone, hk.closed, hk.transport, hk.attached]

theorem Gone.kept (h : m.Gone) (hk : Kept m m') : m'.Gone := hk.gone_iff.2 h

/-- A result that is there, and what it leaves. -/
def Returns {α : Type} (m : Moment) (r : Option (α × Moment)) : Prop :=
  ∃ a m', r = some (a, m') ∧ Kept m m' ∧ m'.held.length ≤ m.held.length

theorem conRecvRaw_gone (h : m.Gone) : ∃ o m', m.conRecvRaw = some (o, m') ∧ Kept m m' ∧
    m'.held.length + o.toList.length ≤ m.held.length := by
  rw [conRecvRaw]
  cases hpush : m.pushback with
  | some b =>
    refine ⟨_, _, rfl, ⟨rfl, rfl, rfl, rfl, id⟩, ?_⟩
    rw [held, held, hpush]
    exact le_refl _
  | none =>
    dsimp only
    split
    · refine ⟨_, _, rfl, ⟨rfl, rfl, rfl, rfl, fun _ => rfl⟩, ?_⟩
      rw [held, held, hpush]
      exact le_refl _
    · next hsock =>
      cases hqueue : m.queue with
      | cons b rest =>
        refine ⟨_, _, rfl, ⟨rfl, rfl, rfl, rfl, id⟩, ?_⟩
        rw [held, held, hpush, hqueue]
        exact le_refl _
      | nil =>
        dsimp only
        rw [if_pos (h.resolve_right hsock)]
        refine ⟨_, _, rfl, ⟨rfl, rfl, rfl, rfl, fun _ => rfl⟩, ?_⟩
        rw [held, held, hpush, hqueue]
        exact le_refl _

theorem skipSub_gone {n : Nat} (h : m.Gone) (hn : m.held.length < n) :
    Returns m (m.skipSub n) := by
  induction n generalizing m with
  | zero => exact absurd hn (Nat.not_lt_zero _)
  | succ n ih =>
    obtain ⟨o, m₁, h₁, hk₁, hlen₁⟩ := conRecvRaw_gone h
    rw [skipSub, h₁, Option.bind_some]
    cases o with
    | none => exact ⟨_, m₁, rfl, hk₁, by omega⟩
    | some d =>
      simp only [Option.toList_some, List.length_singleton] at hlen₁
      dsimp only
      split
      · obtain ⟨o₂, m₂, h₂, hk₂, hlen₂⟩ := conRecvRaw_gone (h.kept hk₁)
        rw [h₂, Option.bind_some]
        cases o₂ with
        | none => exact ⟨_, m₂, rfl, hk₁.trans hk₂, by omega⟩
        | some e =>
          dsimp only
          split
          · exact ⟨_, m₂, rfl, hk₁.trans hk₂, by omega⟩
          · obtain ⟨a, m₃, h₃, hk₃, hlen₃⟩ := ih ((h.kept hk₁).kept hk₂) (by omega)
            exact ⟨a, m₃, h₃, (hk₁.trans hk₂).trans hk₃, by omega⟩
      · obtain ⟨a, m₂, h₂, hk₂, hlen₂⟩ := ih (h.kept hk₁) (by omega)
        exact ⟨a, m₂, h₂, hk₁.trans hk₂, by omega⟩

theorem inByteLoop_gone {n : Nat} (h : m.Gone) (hn : m.held.length < n) :
    Returns m (m.inByteLoop n) := by
  induction n generalizing m with
  | zero => exact absurd hn (Nat.not_lt_zero _)
  | succ n ih =>
    have hmore : ∀ {k : Moment}, Kept m k → k.held.length < m.held.length →
        Returns m (k.inByteLoop n) := by
      intro k hk hlen
      obtain ⟨a, m', h', hk', hlen'⟩ := ih (h.kept hk) (by omega)
      exact ⟨a, m', h', hk.trans hk', by omega⟩
    obtain ⟨o, m₁, h₁, hk₁, hlen₁⟩ := conRecvRaw_gone h
    rw [inByteLoop, h₁, Option.bind_some]
    cases o with
    | none => exact ⟨_, m₁, rfl, hk₁, by omega⟩
    | some b =>
      simp only [Option.toList_some, List.length_singleton] at hlen₁
      dsimp only
      split
      · exact ⟨_, m₁, rfl, hk₁, by omega⟩
      · obtain ⟨o₂, m₂, h₂, hk₂, hlen₂⟩ := conRecvRaw_gone (h.kept hk₁)
        have hk := hk₁.trans hk₂
        rw [h₂, Option.bind_some]
        cases o₂ with
        | none => exact ⟨_, m₂, rfl, hk, by omega⟩
        | some d =>
          dsimp only
          split
          · exact ⟨_, m₂, rfl, hk, by omega⟩
          split
          · obtain ⟨o₃, m₃, h₃, hk₃, hlen₃⟩ := conRecvRaw_gone (h.kept hk)
            rw [h₃, Option.bind_some]
            dsimp only
            exact hmore (hk.trans hk₃) (by omega)
          split
          · obtain ⟨ended, m₃, h₃, hk₃, hlen₃⟩ := skipSub_gone (n := n) (h.kept hk) (by omega)
            rw [h₃, Option.bind_some]
            dsimp only
            split
            · exact hmore (hk.trans hk₃) (by omega)
            · exact ⟨_, m₃, rfl, hk.trans hk₃, by omega⟩
          · exact hmore hk (by omega)

theorem conInByte_gone (h : m.Gone) : Returns m m.conInByte := by
  rw [conInByte]
  split
  · obtain ⟨o, m', h', hk, hlen⟩ := conRecvRaw_gone h
    exact ⟨o, m', h', hk, by omega⟩
  · exact inByteLoop_gone h (by omega)

theorem conStdGetc_gone (h : m.Gone) (hstd : m.transport = .stdio) : Returns m m.conStdGetc := by
  have hclosed : m.closed = true := h.resolve_right fun hs => nomatch hstd.symm.trans hs.1
  rw [conStdGetc]
  cases hqueue : m.queue with
  | nil =>
    dsimp only
    rw [if_pos hclosed]
    exact ⟨_, _, rfl, Kept.refl m, le_refl _⟩
  | cons b rest =>
    refine ⟨_, _, rfl, ⟨rfl, rfl, rfl, rfl, id⟩, ?_⟩
    change (m.pushback.toList ++ rest).length ≤ _
    rw [held, hqueue, List.length_append, List.length_append, List.length_cons]
    omega

theorem conInKey_gone (h : m.Gone) (he : m.Ensured) :
    ∃ o m', m.conInKey = some (o, m') ∧ Kept m m' := by
  have hbyte : Returns m (if m.transport = .stdio then m.conStdGetc else m.conInByte) := by
    split
    · next hstd => exact conStdGetc_gone h hstd
    · exact conInByte_gone h
  obtain ⟨o, m₁, h₁, hk₁, -⟩ := hbyte
  rw [conInKey, h₁, Option.bind_some]
  cases o with
  | none => exact ⟨_, _, rfl, hk₁⟩
  | some b =>
    dsimp only
    split
    · rcases conInputReady_ensured (he.kept hk₁) with ⟨hr, -⟩ | ⟨hr, -⟩
      · obtain ⟨nx, m₂, h₂, hk₂, -⟩ := conInByte_gone (h.kept hk₁)
        rw [hr, Option.bind_some, if_pos rfl, absorb, h₂]
        refine ⟨_, _, rfl, hk₁.trans (hk₂.trans ?_)⟩
        cases nx with
        | none => exact Kept.refl m₂
        | some nx =>
          dsimp only
          split
          · exact ⟨rfl, rfl, rfl, rfl, id⟩
          · exact Kept.refl m₂
      · rw [hr, Option.bind_some, if_neg Bool.false_ne_true]
        exact ⟨_, _, rfl, hk₁⟩
    · exact ⟨_, _, rfl, hk₁⟩

theorem readRawLoop_gone (h : m.Gone) (he : m.Ensured) (n : Nat) :
    (m.readRawLoop n).isSome = true := by
  induction n generalizing m with
  | zero => rfl
  | succ n ih =>
    rw [readRawLoop]
    rcases conInputReady_ensured he with ⟨hr, -⟩ | ⟨hr, -⟩
    · obtain ⟨o, m', h', hk⟩ := conInKey_gone h he
      rw [hr, Option.bind_some]
      dsimp only
      rw [if_pos rfl, h', Option.bind_some]
      cases o with
      | none => rfl
      | some c =>
        dsimp only
        rw [Option.isSome_map]
        exact ih (h.kept hk) (he.kept hk)
    · rw [hr, Option.bind_some]
      rfl

theorem readsAtOnce_gone (h : m.Gone) (he : m.Ensured) (max : Nat) : m.ReadsAtOnce max := by
  rw [ReadsAtOnce, conReadRaw, conEnsureClient_ensured he, Option.bind_some]
  cases max with
  | zero => rfl
  | succ n =>
    obtain ⟨o, m', h', hk⟩ := conInKey_gone h he
    dsimp only
    rw [h', Option.bind_some]
    cases o with
    | none => rfl
    | some c =>
      dsimp only
      rw [Option.isSome_map]
      exact readRawLoop_gone (h.kept hk) (he.kept hk) n

/-! ## While something may come -/

def withQueue (m : Moment) (rest : List U8) : Moment := { m with pushback := none, queue := rest }

@[simp] theorem held_withQueue (m : Moment) (rest : List U8) : (m.withQueue rest).held = rest := rfl

@[simp] theorem withQueue_withQueue (m : Moment) (rest rest' : List U8) :
    (m.withQueue rest).withQueue rest' = m.withQueue rest' := rfl

theorem kept_withQueue (m : Moment) (rest : List U8) : Kept m (m.withQueue rest) :=
  ⟨rfl, rfl, rfl, rfl, id⟩

theorem conRecvRaw_cons {b : U8} {rest : List U8} (h : ¬m.Gone) (hheld : m.held = b :: rest) :
    m.conRecvRaw = some (some b, m.withQueue rest) := by
  rw [held] at hheld
  rw [conRecvRaw]
  cases hpush : m.pushback with
  | some b' =>
    rw [hpush] at hheld
    obtain ⟨rfl, rfl⟩ := List.cons.inj hheld
    rfl
  | none =>
    rw [hpush] at hheld
    rw [if_neg fun hs => h (.inr hs), show m.queue = b :: rest from hheld]
    dsimp only
    rw [withQueue, ← hpush]

theorem conRecvRaw_nil (h : ¬m.Gone) (hheld : m.held = []) : m.conRecvRaw = none := by
  obtain ⟨hpush, hqueue⟩ := List.append_eq_nil_iff.1 hheld
  have hnone : m.pushback = none := by
    cases hp : m.pushback with
    | none => rfl
    | some b =>
      rw [hp] at hpush
      exact nomatch hpush
  rw [conRecvRaw, hnone, if_neg fun hs => h (.inr hs), hqueue]
  dsimp only
  rw [if_neg fun hc => h (.inl hc)]

theorem not_gone_withQueue (h : ¬m.Gone) (rest : List U8) : ¬(m.withQueue rest).Gone := h

end Moment

namespace Scan

theorem run_cons (s : Scan) (b : U8) (bytes : List U8) : s.run (b :: bytes) = (s.step b).run bytes :=
  rfl

end Scan

namespace Moment

variable {m m' : Moment}

theorem skipSub_scan {n : Nat} (h : ¬m.Gone) (hn : m.held.length < n) :
    (∃ rest, m.skipSub n = some (true, m.withQueue rest) ∧ rest.length < m.held.length ∧
      ∀ cr, Scan.run ⟨cr, .sub⟩ m.held = Scan.run ⟨cr, .command⟩ rest) ∨
    m.skipSub n = none ∧ ∀ cr, (Scan.run ⟨cr, .sub⟩ m.held).phase ≠ .key := by
  induction n generalizing m with
  | zero => exact absurd hn (Nat.not_lt_zero _)
  | succ n ih =>
    have hmore : ∀ rest, rest.length < m.held.length →
        (∀ cr, Scan.run ⟨cr, .sub⟩ m.held = Scan.run ⟨cr, .sub⟩ rest) →
        (∃ rest', (m.withQueue rest).skipSub n = some (true, m.withQueue rest') ∧
          rest'.length < m.held.length ∧
          ∀ cr, Scan.run ⟨cr, .sub⟩ m.held = Scan.run ⟨cr, .command⟩ rest') ∨
        (m.withQueue rest).skipSub n = none ∧
          ∀ cr, (Scan.run ⟨cr, .sub⟩ m.held).phase ≠ .key := by
      intro rest hlen hsame
      rcases ih (m := m.withQueue rest) h (by rw [held_withQueue]; omega) with
        ⟨rest', hskip, hless, hrun⟩ | ⟨hskip, hrun⟩
      · rw [held_withQueue] at hless
        exact .inl ⟨rest', hskip, by omega, fun cr => (hsame cr).trans (hrun cr)⟩
      · exact .inr ⟨hskip, fun cr => hsame cr ▸ hrun cr⟩
    rw [skipSub]
    cases hheld : m.held with
    | nil =>
      rw [conRecvRaw_nil h hheld]
      exact .inr ⟨rfl, fun cr hkey => nomatch hkey⟩
    | cons d rest =>
      rw [hheld] at hmore
      rw [conRecvRaw_cons h hheld, Option.bind_some]
      dsimp only
      by_cases hd : d = IAC
      · rw [if_pos hd]
        cases rest with
        | nil =>
          rw [conRecvRaw_nil (not_gone_withQueue h []) rfl]
          refine .inr ⟨rfl, fun cr hkey => ?_⟩
          rw [Scan.run_cons, Scan.step] at hkey
          dsimp only at hkey
          rw [if_pos hd] at hkey
          exact nomatch hkey
        | cons e rest =>
          rw [conRecvRaw_cons (not_gone_withQueue h _) rfl, Option.bind_some]
          dsimp only
          have hiac : ∀ cr, Scan.run ⟨cr, .sub⟩ (d :: e :: rest) =
              Scan.run ⟨cr, if e = SE then .command else .sub⟩ rest := by
            intro cr
            rw [Scan.run_cons, Scan.run_cons, Scan.step, Scan.step]
            dsimp only
            rw [if_pos hd]
          by_cases he : e = SE
          · rw [if_pos he] at hiac ⊢
            refine .inl ⟨rest, rfl, ?_, hiac⟩
            rw [List.length_cons, List.length_cons]
            omega
          · rw [if_neg he] at hiac ⊢
            refine hmore rest ?_ hiac
            rw [List.length_cons, List.length_cons]
            omega
      · rw [if_neg hd]
        refine hmore rest (Nat.lt_succ_self _) fun cr => ?_
        rw [Scan.run_cons, Scan.step]
        dsimp only
        rw [if_neg hd]

/-- What the scan says of the byte that the parser hands on, or of its having to
wait for one. -/
def ScanByte (m : Moment) (r : Option (Option U8 × Moment)) : Prop :=
  (∃ b rest, r = some (some b, m.withQueue rest) ∧ rest.length < m.held.length ∧
    ∀ cr, Scan.run ⟨cr, .command⟩ m.held = (Scan.data cr b).run rest) ∨
  r = none ∧ ∀ cr, (Scan.run ⟨cr, .command⟩ m.held).phase ≠ .key

theorem inByteLoop_scan {n : Nat} (h : ¬m.Gone) (hn : m.held.length < n) :
    ScanByte m (m.inByteLoop n) := by
  induction n generalizing m with
  | zero => exact absurd hn (Nat.not_lt_zero _)
  | succ n ih =>
    have hmore : ∀ rest, rest.length < m.held.length →
        (∀ cr, Scan.run ⟨cr, .command⟩ m.held = Scan.run ⟨cr, .command⟩ rest) →
        ScanByte m ((m.withQueue rest).inByteLoop n) := by
      intro rest hlen hsame
      have hrest : ScanByte (m.withQueue rest) ((m.withQueue rest).inByteLoop n) :=
        ih h (by rw [held_withQueue]; omega)
      rcases hrest with ⟨b, rest', hr, hless, hrun⟩ | ⟨hr, hwaits⟩
      · rw [held_withQueue] at hless
        exact .inl ⟨b, rest', hr, by omega, fun cr => (hsame cr).trans (hrun cr)⟩
      · exact .inr ⟨hr, fun cr => hsame cr ▸ hwaits cr⟩
    rw [inByteLoop]
    cases hheld : m.held with
    | nil =>
      rw [conRecvRaw_nil h hheld]
      exact .inr ⟨rfl, fun cr hkey => nomatch hheld ▸ hkey⟩
    | cons b rest =>
      rw [conRecvRaw_cons h hheld, Option.bind_some]
      dsimp only
      by_cases hb : b = IAC
      swap
      · rw [if_pos hb]
        refine .inl ⟨b, rest, rfl, ?_, ?_⟩
        · rw [hheld]
          exact Nat.lt_succ_self _
        · intro cr
          rw [hheld, Scan.run_cons, Scan.step]
          dsimp only
          rw [if_neg hb]
      rw [if_neg (not_not.2 hb)]
      have hiac : ∀ cr bytes,
          Scan.run ⟨cr, .command⟩ (b :: bytes) = Scan.run ⟨cr, .iac⟩ bytes := by
        intro cr bytes
        rw [Scan.run_cons, Scan.step]
        dsimp only
        rw [if_pos hb]
      cases rest with
      | nil =>
        rw [conRecvRaw_nil (not_gone_withQueue h []) rfl]
        refine .inr ⟨rfl, fun cr hkey => ?_⟩
        rw [hheld, hiac] at hkey
        exact nomatch hkey
      | cons d rest =>
        have hrun : ∀ cr, Scan.run ⟨cr, .command⟩ (b :: d :: rest) =
            (if d = IAC then Scan.data cr IAC
              else if 251 ≤ d ∧ d ≤ 254 then ⟨cr, .option⟩
              else if d = SB then ⟨cr, .sub⟩
              else ⟨cr, .command⟩ : Scan).run rest := fun cr => hiac cr (d :: rest)
        rw [conRecvRaw_cons (not_gone_withQueue h _) rfl, Option.bind_some, withQueue_withQueue]
        dsimp only
        have hless : rest.length < m.held.length := by
          rw [hheld, List.length_cons, List.length_cons]
          omega
        rw [hheld] at hmore hless
        by_cases hescape : d = IAC
        · simp only [if_pos hescape] at hrun ⊢
          refine .inl ⟨IAC, rest, rfl, ?_, ?_⟩
          · rw [hheld]
            exact hless
          · rw [hheld]
            exact hrun
        simp only [if_neg hescape] at hrun ⊢
        by_cases hverb : 251 ≤ d ∧ d ≤ 254
        · simp only [if_pos hverb] at hrun ⊢
          cases rest with
          | nil =>
            rw [conRecvRaw_nil (not_gone_withQueue h []) rfl]
            refine .inr ⟨rfl, fun cr hkey => ?_⟩
            rw [hheld, hrun] at hkey
            exact nomatch hkey
          | cons opt rest =>
            rw [conRecvRaw_cons (not_gone_withQueue h _) rfl, Option.bind_some, withQueue_withQueue]
            refine hmore rest ?_ hrun
            rw [List.length_cons] at hless
            omega
        simp only [if_neg hverb] at hrun ⊢
        by_cases hsub : d = SB
        · simp only [if_pos hsub] at hrun ⊢
          rcases skipSub_scan (n := n) (not_gone_withQueue h rest) (by
              rw [held_withQueue]
              rw [hheld] at hn
              omega) with
            ⟨rest', hskip, hless', hended⟩ | ⟨hskip, hwaits⟩
          · rw [hskip, Option.bind_some, withQueue_withQueue]
            dsimp only
            rw [if_pos rfl]
            rw [held_withQueue] at hless'
            exact hmore rest' (by omega) fun cr => (hrun cr).trans (hended cr)
          · rw [hskip]
            refine .inr ⟨rfl, fun cr hkey => ?_⟩
            rw [hheld, hrun] at hkey
            exact hwaits cr hkey
        · simp only [if_neg hsub] at hrun ⊢
          exact hmore rest hless hrun

/-- The bytes that are left end with a keystroke, as far as this wire has them. -/
def Whole (t : Transport) (s : Scan) (bytes : List U8) : Prop :=
  t = .socket → (s.run bytes).phase = .key

theorem run_command {bytes : List U8} (h : bytes ≠ []) (cr : Bool) :
    Scan.run ⟨cr, .key⟩ bytes = Scan.run ⟨cr, .command⟩ bytes := by
  obtain ⟨b, rest, rfl⟩ := List.exists_cons_of_ne_nil h
  rfl

theorem conInByte_open (h : ¬m.Gone) (hstd : m.transport ≠ .stdio) (hheld : m.held ≠ []) :
    (m.conInByte = none ∧ ∀ cr, ¬Whole m.transport ⟨cr, .key⟩ m.held) ∨
      ∃ b rest, m.conInByte = some (some b, m.withQueue rest) ∧ rest.length < m.held.length ∧
        ∀ cr, Whole m.transport ⟨cr, .key⟩ m.held ↔ Whole m.transport (Scan.data cr b) rest := by
  rw [conInByte]
  by_cases hring : m.transport = .ring
  · obtain ⟨b, rest, hbytes⟩ := List.exists_cons_of_ne_nil hheld
    rw [if_pos hring, conRecvRaw_cons h hbytes]
    refine .inr ⟨b, rest, rfl, ?_, fun cr => iff_of_true ?_ ?_⟩
    · rw [hbytes]
      exact Nat.lt_succ_self _
    · exact fun hsock => nomatch hring.symm.trans hsock
    · exact fun hsock => nomatch hring.symm.trans hsock
  · have hsock : m.transport = .socket := by
      cases htrans : m.transport with
      | socket => rfl
      | ring => exact absurd htrans hring
      | stdio => exact absurd htrans hstd
    rw [if_neg hring]
    rcases inByteLoop_scan (n := m.held.length + 2) h (by omega) with
      ⟨b, rest, hr, hless, hrun⟩ | ⟨hr, hwaits⟩
    · refine .inr ⟨b, rest, hr, hless, fun cr => ?_⟩
      rw [Whole, Whole, run_command hheld, hrun]
    · refine .inl ⟨hr, fun cr hwhole => hwaits cr ?_⟩
      rw [← run_command hheld]
      exact hwhole hsock

theorem conInByte_empty (h : ¬m.Gone) (hheld : m.held = []) :
    m.conInByte = none := by
  have hrecv := conRecvRaw_nil h hheld
  rw [conInByte]
  split
  · exact hrecv
  · rw [inByteLoop, hrecv]
    rfl

/-! ## A keystroke -/

/-- A keystroke is taken, or the reader waits for one. -/
def TakesKey (m : Moment) (r : Option (Option U8 × Moment)) : Prop :=
  r = none ∨ ∃ b m', r = some (some b, m') ∧ Kept m m' ∧ m'.held.length < m.held.length ∧
    (m.transport = .stdio → m'.pushback = m.pushback)

theorem absorb_open (h : ¬m.Gone) (hstd : m.transport ≠ .stdio) :
    m.absorb = none ∨
      ∃ m', m.absorb = some m' ∧ Kept m m' ∧ m'.held.length ≤ m.held.length := by
  by_cases hheld : m.held = []
  · rw [absorb, conInByte_empty h hheld]
    exact .inl rfl
  rcases conInByte_open h hstd hheld with ⟨hr, -⟩ | ⟨b, rest, hr, hless, -⟩
  · rw [absorb, hr]
    exact .inl rfl
  · rw [absorb, hr]
    refine .inr ⟨_, rfl, ?_⟩
    dsimp only
    split
    · exact ⟨⟨rfl, rfl, rfl, rfl, id⟩, hless⟩
    · exact ⟨kept_withQueue m rest, hless.le⟩

theorem conInKey_open (h : ¬m.Gone) (he : m.Ensured) : TakesKey m m.conInKey := by
  rw [conInKey]
  by_cases hstd : m.transport = .stdio
  · rw [if_pos hstd, conStdGetc]
    cases hqueue : m.queue with
    | nil =>
      dsimp only
      rw [if_neg fun hc => h (.inl hc)]
      exact .inl rfl
    | cons b rest =>
      dsimp only
      rw [Option.bind_some]
      dsimp only
      rw [if_neg fun hcr => hcr.2 hstd]
      refine .inr ⟨b, _, rfl, ⟨rfl, rfl, rfl, rfl, id⟩, ?_, fun _ => rfl⟩
      change (m.pushback.toList ++ rest).length < _
      rw [held, hqueue, List.length_append, List.length_append, List.length_cons]
      omega
  rw [if_neg hstd]
  by_cases hheld : m.held = []
  · rw [conInByte_empty h hheld]
    exact .inl rfl
  rcases conInByte_open h hstd hheld with ⟨hr, -⟩ | ⟨b, rest, hr, hless, -⟩
  · rw [hr]
    exact .inl rfl
  rw [hr, Option.bind_some]
  dsimp only
  have hk := kept_withQueue m rest
  have hplain : TakesKey m (some (some b, m.withQueue rest)) :=
    .inr ⟨b, _, rfl, hk, hless, fun hs => absurd hs hstd⟩
  split
  swap
  · exact hplain
  rcases conInputReady_ensured (he.kept hk) with ⟨hready, -⟩ | ⟨hready, -⟩
  · rw [hready, Option.bind_some]
    dsimp only
    rw [if_pos rfl]
    rcases absorb_open (m := m.withQueue rest) h hstd with habsorb | ⟨m', habsorb, hk', hlen⟩
    · rw [habsorb]
      exact .inl rfl
    · rw [habsorb]
      rw [held_withQueue] at hlen
      exact .inr ⟨b, m', rfl, hk.trans hk', by omega, fun hs => absurd hs hstd⟩
  · rw [hready, Option.bind_some]
    exact hplain

theorem readRawLoop_key {b : U8} (hready : m.conInputReady = some (true, m))
    (hkey : m.conInKey = some (some b, m')) (n : Nat) :
    (m.readRawLoop (n + 1)).isSome = (m'.readRawLoop n).isSome := by
  rw [readRawLoop, hready, Option.bind_some]
  dsimp only
  rw [if_pos rfl, hkey, Option.bind_some]
  exact Option.isSome_map

theorem readRawLoop_waits (hready : m.conInputReady = some (true, m)) (hkey : m.conInKey = none)
    (n : Nat) : m.readRawLoop (n + 1) = none := by
  rw [readRawLoop, hready, Option.bind_some]
  dsimp only
  rw [if_pos rfl, hkey]
  rfl

theorem readsAtOnce_key {b : U8} (he : m.Ensured) (hkey : m.conInKey = some (some b, m'))
    (n : Nat) : m.ReadsAtOnce (n + 1) ↔ (m'.readRawLoop n).isSome = true := by
  rw [ReadsAtOnce, conReadRaw, conEnsureClient_ensured he, Option.bind_some]
  dsimp only
  rw [hkey, Option.bind_some]
  dsimp only
  rw [Option.isSome_map]

theorem not_readsAtOnce_of_waits (he : m.Ensured) (hkey : m.conInKey = none) (n : Nat) :
    ¬m.ReadsAtOnce (n + 1) := by
  rw [ReadsAtOnce, conReadRaw, conEnsureClient_ensured he, Option.bind_some]
  dsimp only
  rw [hkey]
  exact Bool.false_ne_true

/-! ## What a raw read never takes -/

/-- The raw reader is told of input that it does not take: the end that was noted,
a line that was cooked, or a byte put back on a socket. -/
def Pressing (m : Moment) : Prop :=
  m.eof = true ∨ m.line ≠ [] ∨ m.transport = .stdio ∧ m.pushback ≠ none

theorem Pressing.ready (h : m.Pressing) : m.Ready :=
  h.imp id fun h => .inl (h.elim (fun hline => .inr (.inl hline)) fun hpush => .inl hpush.2)

theorem Pressing.key (h : m.Pressing) (hk : Kept m m')
    (hpush : m.transport = .stdio → m'.pushback = m.pushback) : m'.Pressing := by
  refine h.imp hk.eof (Or.imp (fun hline => hk.line.symm ▸ hline) fun hstd => ?_)
  rw [hk.transport, hpush hstd.1]
  exact hstd

theorem readRawLoop_pressing {n : Nat} (h : ¬m.Gone) (he : m.Ensured) (hp : m.Pressing)
    (hn : m.held.length < n) : m.readRawLoop n = none := by
  induction n generalizing m with
  | zero => exact absurd hn (Nat.not_lt_zero _)
  | succ n ih =>
    have hready : m.conInputReady = some (true, m) :=
      ((conInputReady_ensured he).resolve_right fun hno => hno.2 hp.ready).1
    rcases conInKey_open h he with hkey | ⟨b, m', hkey, hk, hless, hpush⟩
    · exact readRawLoop_waits hready hkey n
    · have hgone : ¬m'.Gone := fun hg => h (hk.gone_iff.1 hg)
      have hmore := ih hgone (he.kept hk) (hp.key hk hpush) (by omega)
      rw [← Option.isNone_iff_eq_none, ← Option.not_isSome, readRawLoop_key hready hkey, hmore]
      rfl

theorem not_truthful_of_pressing (h : ¬m.Gone) (he : m.Ensured) (hp : m.Pressing) :
    ¬m.Truthful := by
  intro htruth
  have hreads := (htruth (m.held.length + 2) (by omega)).1 ((reports_ensured he).2 hp.ready)
  rcases conInKey_open h he with hkey | ⟨b, m', hkey, hk, hless, hpush⟩
  · exact not_readsAtOnce_of_waits he hkey _ hreads
  · have hgone : ¬m'.Gone := fun hg => h (hk.gone_iff.1 hg)
    have hdrain := (readsAtOnce_key he hkey _).1 hreads
    rw [readRawLoop_pressing hgone (he.kept hk) (hp.key hk hpush) (by omega)] at hdrain
    exact nomatch hdrain

/-! ## Only what a raw read takes -/

/-- Nothing is counted but the bytes. -/
structure Quiet (m : Moment) : Prop where
  opened : ¬m.Gone
  ensured : m.Ensured
  eof : m.eof = false
  line : m.line = []
  pushback : m.transport = .stdio → m.pushback = none

theorem Quiet.withQueue (h : m.Quiet) (rest : List U8) : (m.withQueue rest).Quiet :=
  ⟨h.opened, h.ensured, h.eof, h.line, fun _ => rfl⟩

theorem Quiet.ready_iff (h : m.Quiet) : m.Ready ↔ m.held ≠ [] := by
  have hopen : ¬(m.transport = .ring ∧ m.closed = true) := fun hr => h.opened (.inl hr.2)
  rw [Ready, h.eof, or_iff_left hopen, Counted, h.line, held]
  cases m.pushback with
  | none => simp
  | some b => simp

theorem Quiet.conInKey_empty (h : m.Quiet) (hheld : m.held = []) : m.conInKey = none := by
  rw [conInKey]
  by_cases hstd : m.transport = .stdio
  · have hqueue : m.queue = [] := (List.append_eq_nil_iff.1 hheld).2
    rw [if_pos hstd, conStdGetc, hqueue]
    dsimp only
    rw [if_neg fun hc => h.opened (.inl hc)]
    rfl
  · rw [if_neg hstd, conInByte_empty h.opened hheld]
    rfl

theorem data_putBack {x : U8} (hx : x ≠ LF ∧ x ≠ 0) (rest : List U8) :
    (Scan.data true x).run rest = Scan.run ⟨false, .key⟩ (x :: rest) := by
  have hpair : ¬(true = true ∧ (x = LF ∨ x = 0)) := fun h => h.2.elim hx.1 hx.2
  have hfree : Scan.data false x = ⟨x = CR, .key⟩ := rfl
  rw [Scan.run_cons, Scan.step, Scan.data, if_neg hpair]
  dsimp only
  rw [hfree]
  congr 1
  by_cases hiac : x = IAC
  · rw [if_pos ⟨rfl, hiac⟩, if_pos hiac]
  · rw [if_neg fun h => hiac h.2, if_neg hiac]

theorem Quiet.absorb (h : m.Quiet) (hstd : m.transport ≠ .stdio) (hheld : m.held ≠ []) :
    (m.absorb = none ∧ ¬Whole m.transport ⟨true, .key⟩ m.held) ∨
      ∃ m', m.absorb = some m' ∧ m'.Quiet ∧ m'.transport = m.transport ∧
        m'.held.length ≤ m.held.length ∧
        (Whole m.transport ⟨true, .key⟩ m.held ↔ Whole m.transport ⟨false, .key⟩ m'.held) := by
  rw [Moment.absorb]
  rcases conInByte_open h.opened hstd hheld with ⟨hr, hwaits⟩ | ⟨x, rest, hr, hless, hwhole⟩
  · rw [hr]
    exact .inl ⟨rfl, hwaits true⟩
  rw [hr, hwhole true]
  refine .inr ⟨_, rfl, ?_⟩
  dsimp only
  split
  · next hx =>
    refine ⟨⟨h.opened, h.ensured, h.eof, h.line, fun hs => absurd hs hstd⟩, rfl, hless, ?_⟩
    rw [Whole, Whole, data_putBack hx]
    rfl
  · next hx =>
    refine ⟨h.withQueue rest, rfl, hless.le, ?_⟩
    have hpair : x = LF ∨ x = 0 := by
      by_contra hno
      exact hx (not_or.1 hno)
    rw [Scan.data, if_pos ⟨rfl, hpair⟩]
    rfl

theorem Quiet.key (h : m.Quiet) (hheld : m.held ≠ []) :
    (m.conInKey = none ∧ ¬Whole m.transport ⟨false, .key⟩ m.held) ∨
      ∃ b m', m.conInKey = some (some b, m') ∧ m'.Quiet ∧ m'.transport = m.transport ∧
        m'.held.length < m.held.length ∧
        (Whole m.transport ⟨false, .key⟩ m.held ↔ Whole m.transport ⟨false, .key⟩ m'.held) := by
  rw [conInKey]
  by_cases hstd : m.transport = .stdio
  · have hpush := h.pushback hstd
    have hwhole : ∀ s bytes, Whole m.transport s bytes := fun _ _ hsock =>
      nomatch hstd.symm.trans hsock
    rw [held, hpush] at hheld
    obtain ⟨b, rest, hqueue⟩ := List.exists_cons_of_ne_nil hheld
    have hqueue' : m.queue = b :: rest := hqueue
    rw [if_pos hstd, conStdGetc, hqueue', Option.bind_some]
    dsimp only
    rw [if_neg fun hcr => hcr.2 hstd]
    refine .inr ⟨b, _, rfl, ⟨h.opened, h.ensured, h.eof, h.line, h.pushback⟩, rfl, ?_,
      iff_of_true (hwhole _ _) (hwhole _ _)⟩
    rw [held, held, hpush, hqueue']
    exact Nat.lt_succ_self _
  rw [if_neg hstd]
  rcases conInByte_open h.opened hstd hheld with ⟨hr, hwaits⟩ | ⟨b, rest, hr, hless, hwhole⟩
  · rw [hr]
    exact .inl ⟨rfl, hwaits false⟩
  have hrest := h.withQueue rest
  have hdata : Scan.data false b = ⟨b = CR, .key⟩ := rfl
  rw [hr, hwhole false, hdata, Option.bind_some]
  dsimp only
  by_cases hcr : b = CR
  · rw [if_pos ⟨hcr, hstd⟩, decide_eq_true hcr]
    rcases conInputReady_ensured hrest.ensured with ⟨hready, hsome⟩ | ⟨hready, hnone⟩
    · rw [hready, Option.bind_some]
      dsimp only
      rw [if_pos rfl]
      rcases hrest.absorb hstd (hrest.ready_iff.1 hsome) with
        ⟨habsorb, hwaits⟩ | ⟨m', habsorb, hquiet, htrans, hlen, hwhole'⟩
      · rw [habsorb]
        exact .inl ⟨rfl, hwaits⟩
      · rw [habsorb]
        rw [held_withQueue] at hlen
        exact .inr ⟨b, m', rfl, hquiet, htrans, by omega, hwhole'⟩
    · have hempty : rest = [] := not_not.1 fun hne => hnone (hrest.ready_iff.2 hne)
      rw [hready, Option.bind_some]
      refine .inr ⟨b, _, rfl, hrest, rfl, hless, ?_⟩
      rw [held_withQueue, hempty]
      exact iff_of_true (fun _ => rfl) fun _ => rfl
  · rw [if_neg fun h => hcr h.1, decide_eq_false hcr]
    exact .inr ⟨b, _, rfl, hrest, rfl, hless, Iff.rfl⟩

theorem Quiet.drains_iff (h : m.Quiet) :
    (∀ n, (m.readRawLoop n).isSome = true) ↔ Whole m.transport ⟨false, .key⟩ m.held := by
  generalize hlen : m.held.length = len
  induction len using Nat.strong_induction_on generalizing m with
  | _ len ih =>
    by_cases hheld : m.held = []
    · refine iff_of_true (fun n => ?_) (by rw [hheld]; exact fun _ => rfl)
      cases n with
      | zero => rfl
      | succ n =>
        have hready := ((conInputReady_ensured h.ensured).resolve_left fun hyes =>
          h.ready_iff.1 hyes.2 hheld).1
        rw [readRawLoop, hready]
        rfl
    · have hready := ((conInputReady_ensured h.ensured).resolve_right fun hno =>
        hno.2 (h.ready_iff.2 hheld)).1
      rcases h.key hheld with ⟨hkey, hwaits⟩ | ⟨b, m', hkey, hquiet, htrans, hless, hwhole⟩
      · refine iff_of_false (fun hall => ?_) hwaits
        have hone := hall 1
        rw [readRawLoop_waits hready hkey] at hone
        exact nomatch hone
      · rw [hwhole, ← htrans, ← ih m'.held.length (by omega) hquiet rfl]
        constructor
        · exact fun hall n => (readRawLoop_key hready hkey n).symm.trans (hall (n + 1))
        · intro hall n
          cases n with
          | zero => rfl
          | succ n => exact (readRawLoop_key hready hkey n).trans (hall n)

theorem Quiet.truthful_iff (h : m.Quiet) :
    m.Truthful ↔ Whole m.transport ⟨false, .key⟩ m.held := by
  have hreports : m.Reports ↔ m.held ≠ [] := (reports_ensured h.ensured).trans h.ready_iff
  by_cases hheld : m.held = []
  · refine iff_of_true (fun max hmax => ?_) (by rw [hheld]; exact fun _ => rfl)
    obtain ⟨n, rfl⟩ := Nat.exists_eq_add_of_le' hmax
    have hkey : m.conInKey = none := h.conInKey_empty hheld
    exact ⟨fun hr => absurd hheld (hreports.1 hr),
      fun hreads => absurd hreads (not_readsAtOnce_of_waits h.ensured hkey n)⟩
  rcases h.key hheld with ⟨hkey, hwaits⟩ | ⟨b, m', hkey, hquiet, htrans, -, hwhole⟩
  · refine iff_of_false (fun htruth => ?_) hwaits
    exact not_readsAtOnce_of_waits h.ensured hkey 0 ((htruth 1 le_rfl).1 (hreports.2 hheld))
  · rw [hwhole, ← htrans, ← hquiet.drains_iff]
    constructor
    · intro htruth n
      exact (readsAtOnce_key h.ensured hkey n).1
        ((htruth (n + 1) (Nat.succ_pos n)).1 (hreports.2 hheld))
    · intro hdrains max hmax
      obtain ⟨n, rfl⟩ := Nat.exists_eq_add_of_le' hmax
      exact ⟨fun _ => (readsAtOnce_key h.ensured hkey n).2 (hdrains n),
        fun _ => hreports.2 hheld⟩

/-! ## Where it does -/

theorem truthful_iff_reports (h : ∀ max, m.ReadsAtOnce max) : m.Truthful ↔ m.Reports :=
  ⟨fun htruth => (htruth 1 le_rfl).2 (h 1), fun hreports max _ => ⟨fun _ => h max, fun _ => hreports⟩⟩

theorem truthful_gone (h : m.Gone) (he : m.Ensured) : m.Truthful ↔ m.Ready :=
  (truthful_iff_reports (readsAtOnce_gone h he)).trans (reports_ensured he)

/-- Where something may come, whatever is counted has to be the raw reader's. -/
theorem truthful_open (h : ¬m.Gone) (he : m.Ensured) :
    m.Truthful ↔ ¬m.Pressing ∧ Whole m.transport ⟨false, .key⟩ m.held := by
  by_cases hp : m.Pressing
  · exact iff_of_false (not_truthful_of_pressing h he hp) fun hno => hno.1 hp
  · have hquiet : m.Quiet := by
      refine ⟨h, he, ?_, ?_, fun hstd => ?_⟩
      · exact Bool.eq_false_iff.2 fun heof => hp (.inl heof)
      · exact not_not.1 fun hline => hp (.inr (.inl hline))
      · exact not_not.1 fun hpush => hp (.inr (.inr ⟨hstd, hpush⟩))
    rw [hquiet.truthful_iff]
    exact (and_iff_right hp).symm

theorem truthful_attached (hsock : m.transport = .socket) (hattached : m.attached = true) :
    m.Truthful ↔ m.SettledClient := by
  have he : m.Ensured := fun _ => .inl hattached
  have hring : ¬(m.transport = .ring ∧ m.closed = true) := fun h => nomatch hsock.symm.trans h.1
  have hstd : ¬(m.transport = .stdio ∧ m.pushback ≠ none) := fun h => nomatch hsock.symm.trans h.1
  rw [SettledClient]
  by_cases hclosed : m.closed = true
  · rw [if_pos hclosed, truthful_gone (.inl hclosed) he, Ready, or_iff_left hring]
  · have hopen : ¬m.Gone := fun h => h.elim hclosed fun hs => hs.2 hattached
    rw [if_neg hclosed, truthful_open hopen he, Pressing, or_iff_left hstd, not_or, not_not,
      Bool.not_eq_true, and_assoc, Whole, EndsWithKey]
    exact and_congr_right fun _ => and_congr_right fun _ => forall_prop_of_true hsock

theorem truthful_knock (hsock : m.transport = .socket) (hattached : ¬m.attached = true)
    (heof : ¬m.eof = true) (hknock : m.knock = some true) :
    m.Truthful ↔ Truthful { m with attached := true } := by
  have hensure : m.conEnsureClient = some { m with attached := true } := by
    rw [conEnsureClient, if_neg fun h => h.elim (fun hs => hs hsock) (Or.rec hattached heof), hknock]
    rfl
  have hensured : Ensured { m with attached := true } := fun _ => .inl rfl
  have havail : m.conInputAvail = conInputAvail { m with attached := true } := by
    rw [conInputAvail_socket hsock heof, hensure, conInputAvail_socket (m := { m with attached := true }) hsock heof,
      conEnsureClient_ensured hensured]
  have hread : ∀ max, m.conReadRaw max = conReadRaw { m with attached := true } max := by
    intro max
    rw [conReadRaw, conReadRaw, hensure, conEnsureClient_ensured hensured]
  rw [Truthful, Truthful, Reports, Reports, havail]
  simp only [ReadsAtOnce, hread]

theorem truthful_accept_fails (hsock : m.transport = .socket) (hattached : ¬m.attached = true)
    (heof : ¬m.eof = true) (hknock : m.knock = some false) :
    m.Truthful ↔ m.pushback ≠ none ∨ m.line ≠ [] := by
  have hensure : m.conEnsureClient = some { m with eof := true } := by
    rw [conEnsureClient, if_neg fun h => h.elim (fun hs => hs hsock) (Or.rec hattached heof), hknock]
    rfl
  have hensured : Ensured { m with eof := true } := fun _ => .inr rfl
  have hgone : Gone { m with eof := true } := .inr ⟨hsock, hattached⟩
  have hreads : ∀ max, m.ReadsAtOnce max := by
    intro max
    have hread : m.conReadRaw max = conReadRaw { m with eof := true } max := by
      rw [conReadRaw, conReadRaw, hensure, conEnsureClient_ensured hensured]
    rw [ReadsAtOnce, hread]
    exact readsAtOnce_gone hgone hensured max
  have havail : m.conInputAvail =
      some (m.pushback.toList.length + m.line.length, { m with eof := true }) := by
    rw [conInputAvail_socket hsock heof, hensure, Option.map_some]
    dsimp only
    rw [if_neg hattached]
  rw [truthful_iff_reports hreads]
  have hreports : m.Reports ↔ m.pushback.toList.length + m.line.length ≠ 0 := by
    constructor
    · rintro ⟨n, m', hn, hne⟩
      obtain ⟨rfl, -⟩ := Prod.mk.inj (Option.some.inj (havail.symm.trans hn))
      exact hne
    · exact fun hne => ⟨_, _, havail, hne⟩
  rw [hreports, pushback_iff, line_iff]
  omega

/-- Polling tells the truth where it is settled, and nowhere else. -/
theorem truthful_iff_settled (m : Moment) : m.Truthful ↔ m.Settled := by
  rw [Settled]
  cases hsock : m.transport with
  | socket =>
    dsimp only
    by_cases hattached : m.attached = true
    · rw [if_pos hattached]
      exact truthful_attached hsock hattached
    rw [if_neg hattached]
    by_cases heof : m.eof = true
    · rw [if_pos heof, truthful_gone (.inr ⟨hsock, hattached⟩) fun _ => .inr heof]
      exact iff_of_true (.inl heof) trivial
    rw [if_neg heof]
    cases hknock : m.knock with
    | none =>
      have hensure : m.conEnsureClient = none := by
        rw [conEnsureClient, if_neg fun h => h.elim (fun hs => hs hsock) (Or.rec hattached heof),
          hknock]
        rfl
      refine iff_of_true (fun max _ => ⟨?_, ?_⟩) trivial
      · rintro ⟨n, m', hn, -⟩
        rw [conInputAvail_socket hsock heof, hensure] at hn
        exact nomatch hn
      · rw [ReadsAtOnce, conReadRaw, hensure]
        exact fun h => nomatch h
    | some comes =>
      cases comes with
      | true =>
        rw [truthful_knock hsock hattached heof hknock]
        exact truthful_attached hsock rfl
      | false => exact truthful_accept_fails hsock hattached heof hknock
  | ring =>
    dsimp only
    have he : m.Ensured := fun h => nomatch hsock.symm.trans h
    have hstd : ¬(m.transport = .stdio ∧ m.pushback ≠ none) := fun h => nomatch hsock.symm.trans h.1
    by_cases hclosed : m.closed = true
    · rw [truthful_gone (.inl hclosed) he]
      exact iff_of_true (.inr (.inr ⟨hsock, hclosed⟩)) (.inl hclosed)
    · have hopen : ¬m.Gone := fun h => h.elim hclosed fun hs => nomatch hsock.symm.trans hs.1
      have hwhole : Whole m.transport ⟨false, .key⟩ m.held := fun h => nomatch hsock.symm.trans h
      rw [truthful_open hopen he, and_iff_left hwhole, or_iff_right hclosed, Pressing,
        or_iff_left hstd, not_or, not_not, Bool.not_eq_true]
  | stdio =>
    dsimp only
    have he : m.Ensured := fun h => nomatch hsock.symm.trans h
    have hring : ¬(m.transport = .ring ∧ m.closed = true) := fun h => nomatch hsock.symm.trans h.1
    by_cases hclosed : m.closed = true
    · rw [if_pos hclosed, truthful_gone (.inl hclosed) he, Ready, or_iff_left hring]
    · have hopen : ¬m.Gone := fun h => h.elim hclosed fun hs => nomatch hsock.symm.trans hs.1
      have hwhole : Whole m.transport ⟨false, .key⟩ m.held := fun h => nomatch hsock.symm.trans h
      rw [if_neg hclosed, truthful_open hopen he, and_iff_left hwhole, Pressing, and_iff_right hsock,
        not_or, not_or, not_not, not_not, Bool.not_eq_true, and_comm (a := m.line = [])]

/-- The rest of a cooked line is reported once the terminal is raw, and the raw read
waits for the next key. -/
theorem leftover_line_waits :
    (((Con.listening [0x61, 0x62, LF] 3 []).conSockRead 1).con.moment).Reports ∧
      ¬(((Con.listening [0x61, 0x62, LF] 3 []).conSockRead 1).con.moment).ReadsAtOnce 1 :=
  ⟨⟨2, _, rfl, by decide⟩, fun h => nomatch (show false = true from h)⟩

/-- A client that has hung up unnoticed is not reported. -/
example : ¬Truthful ⟨.socket, true, none, false, none, [], [], true⟩ := by
  rw [truthful_iff_settled]
  rintro (heof | hcounted | hcounted | hcounted)
  · exact nomatch heof
  all_goals exact hcounted rfl

end Moment

end Nx88.Console
