import EventMachine.Example.TcpServer
import EventMachine.Lib.Monitor
import Mathlib.Data.List.Nodup

/-!
# The conversations of the server

What the server prints about one connection is a conversation (`Stage.next`): the connection is accepted,
then there are texts, then it is closed, all on the socket it was accepted on. A connection that cannot be
registered is given up, and its socket stays open.

`Conversing` says that the output consists of conversations, that the queue watches the connections that
are talking, and which sockets are open (`Sockets`). The handlers keep it, if they are called for what is
watched.
-/

namespace EventMachine

open Lib

/-! ## Conversations -/

/-- Where the conversation about a connection has come to. -/
inductive Stage
  | fresh
  | refused
  | talking (socket : Int)
  | over
  deriving DecidableEq, Repr

/-- Where a line of the output leads, if it may be printed then. -/
def Stage.next : Stage → Line → Option Stage
  | .fresh, ⟨_, socket, .accepted _⟩ => some (.talking socket)
  | .fresh, ⟨_, _, .addFailed⟩ => some .refused
  | .talking socket, ⟨_, socket', .text _ _⟩ => if socket' = socket then some (.talking socket) else none
  | .talking socket, ⟨_, socket', .closed _⟩ => if socket' = socket then some .over else none
  | _, _ => none

/-- The stage of the conversation about the connection of record `a`. -/
def Server.stage (s : Server) (a : Nat) : Option Stage :=
  monitor Line.data Stage.next .fresh (.user a) s.output

def Message.address : Message → Option UInt32
  | .accepted address => some address
  | .text address _ => some address
  | .closed address => some address
  | .addFailed => none

/-- The line is about a connection that has a record, and it shows the address `accept()` has given. -/
def Line.Proper (net : Net) (records : Nat) (l : Line) : Prop :=
  ∃ a, l.data = .user a ∧ 1 ≤ a ∧ a ≤ records ∧
    ∀ address, l.message.address = some address → net.accept (a - 1) = some address

theorem Line.Proper.mono {net : Net} {n n' : Nat} {l : Line} (h : l.Proper net n) (hle : n ≤ n') :
    l.Proper net n' := by
  obtain ⟨a, hdata, hpos, ha, haddress⟩ := h
  exact ⟨a, hdata, hpos, Nat.le_trans ha hle, haddress⟩

namespace Server
variable {s : Server} {a b : Nat} {l : Line}

theorem stage_congr {s' : Server} (h : s'.output = s.output) (a : Nat) : s'.stage a = s.stage a := by
  rw [stage, h, stage]

theorem stage_append {s' : Server} (h : s'.output = s.output ++ [l]) (hl : l.data = .user a) {st : Stage}
    (hst : s.stage a = some st) : s'.stage a = st.next l := by
  rw [stage, h, monitor_append hl]
  show (s.stage a).bind _ = _
  rw [hst, Option.bind_some]

theorem stage_append_of_ne {s' : Server} (h : s'.output = s.output ++ [l]) (hl : l.data = .user a)
    (hb : b ≠ a) : s'.stage b = s.stage b := by
  have hne : l.data ≠ .user b := by
    rw [hl]
    intro heq
    exact hb (VoidPtr.user.inj heq).symm
  rw [stage, h, monitor_append_of_ne hne, stage]

theorem stage_fresh {net : Net} (h : ∀ l ∈ s.output, l.Proper net s.records)
    (ha : a = 0 ∨ s.records < a) : s.stage a = some .fresh := by
  apply monitor_of_forall_ne
  intro l hl hdata
  obtain ⟨b, hb, hpos, hle, -⟩ := h l hl
  obtain rfl := VoidPtr.user.inj (hb.symm.trans hdata)
  omega

end Server

/-! ## Open sockets -/

/-- The socket of a connection that has been given up. -/
def Line.refusal (l : Line) : Option Int :=
  match l.message with
  | .addFailed => some l.socket
  | _ => none

/-- The sockets of the connections that have been given up. -/
def Server.refusals (s : Server) : List Int := s.output.filterMap Line.refusal

/-- A connection that has not been closed holds the socket. -/
def Server.Holds (s : Server) (fd : Int) : Prop :=
  (∃ a, s.stage a = some (.talking fd)) ∨ fd ∈ s.refusals

namespace Server
variable {s s' : Server} {a : Nat} {fd : Int}

theorem holds_of_closed (ha : s.stage a = some (.talking fd))
    (hunique : ∀ b, s.stage b = some (.talking fd) → b = a) (hapart : fd ∉ s.refusals)
    (hover : ∀ n, s'.stage a ≠ some (.talking n)) (hstage : ∀ b, b ≠ a → s'.stage b = s.stage b)
    (hrefusals : s'.refusals = s.refusals) (n : Int) : s'.Holds n ↔ s.Holds n ∧ n ≠ fd := by
  unfold Holds
  rw [hrefusals]
  constructor
  · rintro (⟨b, hb⟩ | hn)
    · have hba : b ≠ a := fun heq => hover n (heq ▸ hb)
      rw [hstage b hba] at hb
      exact ⟨Or.inl ⟨b, hb⟩, fun heq => hba (hunique b (heq ▸ hb))⟩
    · exact ⟨Or.inr hn, fun heq => hapart (heq ▸ hn)⟩
  · rintro ⟨⟨b, hb⟩ | hn, hne⟩
    · refine Or.inl ⟨b, (hstage b ?_).trans hb⟩
      rintro rfl
      exact hne (Stage.talking.inj (Option.some.inj (hb.symm.trans ha)))
    · exact Or.inr hn

theorem holds_of_new (hfresh : ∀ n, s.stage a ≠ some (.talking n))
    (hstage : ∀ b, b ≠ a → s'.stage b = s.stage b)
    (hcase : (∀ n, s'.stage a ≠ some (.talking n)) ∧ s'.refusals = s.refusals ++ [fd] ∨
      s'.stage a = some (.talking fd) ∧ s'.refusals = s.refusals) (n : Int) :
    s'.Holds n ↔ n = fd ∨ s.Holds n := by
  have hold : ∀ b, s.stage b = some (.talking n) → s'.stage b = some (.talking n) := by
    intro b hb
    rw [hstage b]
    · exact hb
    · rintro rfl
      exact hfresh n hb
  unfold Holds
  rcases hcase with ⟨hnot, hrefusals⟩ | ⟨htalking, hrefusals⟩
  · rw [hrefusals, List.mem_append, List.mem_singleton]
    constructor
    · rintro (⟨b, hb⟩ | hn | hn)
      · have hba : b ≠ a := fun heq => hnot n (heq ▸ hb)
        exact Or.inr (Or.inl ⟨b, (hstage b hba).symm.trans hb⟩)
      · exact Or.inr (Or.inr hn)
      · exact Or.inl hn
    · rintro (hn | ⟨b, hb⟩ | hn)
      · exact Or.inr (Or.inr hn)
      · exact Or.inl ⟨b, hold b hb⟩
      · exact Or.inr (Or.inl hn)
  · rw [hrefusals]
    constructor
    · rintro (⟨b, hb⟩ | hn)
      · by_cases hba : b = a
        · rw [hba, htalking] at hb
          exact Or.inl (Stage.talking.inj (Option.some.inj hb)).symm
        · exact Or.inr (Or.inl ⟨b, (hstage b hba).symm.trans hb⟩)
      · exact Or.inr (Or.inr hn)
    · rintro (rfl | ⟨b, hb⟩ | hn)
      · exact Or.inl ⟨a, htalking⟩
      · exact Or.inl ⟨b, hold b hb⟩
      · exact Or.inr hn

end Server

/-- What is open: what was open at the start, and the sockets that connections hold, each held by one. -/
structure Sockets (base : Int → Option File) (w : World Server) : Prop where
  kept : ∀ fd f, base fd = some f → w.kernel.file fd = some f
  held : ∀ fd f, w.kernel.file fd = some f → base fd = some f ∨ w.storage.Holds fd
  given : ∀ fd, w.storage.Holds fd → base fd = none ∧ (w.kernel.file fd).isSome
  apart : ∀ a fd, w.storage.stage a = some (.talking fd) → fd ∉ w.storage.refusals
  refused : w.storage.refusals.Nodup

namespace Sockets
variable {base : Int → Option File} {w w' : World Server} {a : Nat} {fd : Int} {f : File}

theorem congr (h : Sockets base w) (hfile : ∀ n, w'.kernel.file n = w.kernel.file n)
    (hstage : ∀ a, w'.storage.stage a = w.storage.stage a)
    (hrefusals : w'.storage.refusals = w.storage.refusals) : Sockets base w' := by
  have hholds : ∀ n, w'.storage.Holds n ↔ w.storage.Holds n := fun n => by
    unfold Server.Holds
    simp only [hstage, hrefusals]
  constructor
  · intro n g hg
    rw [hfile]
    exact h.kept n g hg
  · intro n g hg
    rw [hfile] at hg
    rw [hholds]
    exact h.held n g hg
  · intro n hn
    rw [hfile]
    exact h.given n ((hholds n).1 hn)
  · intro b n hb
    rw [hstage] at hb
    rw [hrefusals]
    exact h.apart b n hb
  · rw [hrefusals]
    exact h.refused

theorem hungUp (h : Sockets base w) (ha : w.storage.stage a = some (.talking fd))
    (hunique : ∀ b, w.storage.stage b = some (.talking fd) → b = a)
    (hfile : ∀ n, w'.kernel.file n = if n = fd then none else w.kernel.file n)
    (hover : ∀ n, w'.storage.stage a ≠ some (.talking n))
    (hstage : ∀ b, b ≠ a → w'.storage.stage b = w.storage.stage b)
    (hrefusals : w'.storage.refusals = w.storage.refusals) : Sockets base w' := by
  have hholds := Server.holds_of_closed ha hunique (h.apart a fd ha) hover hstage hrefusals
  constructor
  · intro n g hg
    have hne : n ≠ fd := by
      rintro rfl
      rw [(h.given n (Or.inl ⟨a, ha⟩)).1] at hg
      cases hg
    rw [hfile, if_neg hne]
    exact h.kept n g hg
  · intro n g hg
    rw [hfile] at hg
    split at hg
    · cases hg
    · next hne =>
      rw [hholds]
      exact (h.held n g hg).imp id fun hn => ⟨hn, hne⟩
  · intro n hn
    obtain ⟨hn, hne⟩ := (hholds n).1 hn
    rw [hfile, if_neg hne]
    exact h.given n hn
  · intro b n hb
    have hba : b ≠ a := fun heq => hover n (heq ▸ hb)
    rw [hrefusals]
    exact h.apart b n ((hstage b hba).symm.trans hb)
  · rw [hrefusals]
    exact h.refused

theorem joined (h : Sockets base w) (hfree : w.kernel.file fd = none)
    (hfile : ∀ n, w'.kernel.file n = if n = fd then some f else w.kernel.file n)
    (hfresh : ∀ n, w.storage.stage a ≠ some (.talking n))
    (hstage : ∀ b, b ≠ a → w'.storage.stage b = w.storage.stage b)
    (hcase : (∀ n, w'.storage.stage a ≠ some (.talking n)) ∧
        w'.storage.refusals = w.storage.refusals ++ [fd] ∨
      w'.storage.stage a = some (.talking fd) ∧ w'.storage.refusals = w.storage.refusals) :
    Sockets base w' := by
  have hnew : ¬ w.storage.Holds fd := by
    intro hheld
    have hopen := (h.given fd hheld).2
    rw [hfree] at hopen
    cases hopen
  have hholds := Server.holds_of_new hfresh hstage hcase
  have hne_of_open : ∀ n, (w.kernel.file n).isSome → n ≠ fd := by
    rintro n hn rfl
    rw [hfree] at hn
    cases hn
  constructor
  · intro n g hg
    have hopen := h.kept n g hg
    rw [hfile, if_neg (hne_of_open n (by rw [hopen]; rfl))]
    exact hopen
  · intro n g hg
    rw [hholds]
    by_cases hn : n = fd
    · exact Or.inr (Or.inl hn)
    · rw [hfile, if_neg hn] at hg
      exact (h.held n g hg).imp id Or.inr
  · intro n hn
    rcases (hholds n).1 hn with rfl | hn
    · refine ⟨Option.eq_none_iff_forall_ne_some.2 fun g hg => ?_, by rw [hfile, if_pos rfl]; rfl⟩
      have hopen := h.kept n g hg
      rw [hfree] at hopen
      cases hopen
    · obtain ⟨hbase, hopen⟩ := h.given n hn
      rw [hfile, if_neg (hne_of_open n hopen)]
      exact ⟨hbase, hopen⟩
  · intro b n hb
    by_cases hba : b = a
    · rw [hba] at hb
      rcases hcase with ⟨hnot, -⟩ | ⟨htalking, hrefusals⟩
      · exact absurd hb (hnot n)
      · rw [htalking] at hb
        obtain rfl := Stage.talking.inj (Option.some.inj hb)
        rw [hrefusals]
        exact fun hn => hnew (Or.inr hn)
    · rw [hstage b hba] at hb
      have hapart := h.apart b n hb
      rcases hcase with ⟨-, hrefusals⟩ | ⟨-, hrefusals⟩
      · rw [hrefusals, List.mem_append, List.mem_singleton]
        rintro (hn | rfl)
        · exact hapart hn
        · exact hnew (Or.inl ⟨b, hb⟩)
      · rw [hrefusals]
        exact hapart
  · rcases hcase with ⟨-, hrefusals⟩ | ⟨-, hrefusals⟩
    · rw [hrefusals, ← List.concat_eq_append]
      exact h.refused.concat fun hn => hnew (Or.inr hn)
    · rw [hrefusals]
      exact h.refused

end Sockets

/-! ## The invariant -/

/-- A connection that has been accepted and not closed: its record is what `accept_handler()` has made of
it, and its socket is watched. -/
structure TalksTo (net : Net) (q : File) (w : World Server) (a : Nat) (socket : Int) : Prop where
  descriptor : w.descriptors a =
    ⟨EPOLLIN ||| EPOLLRDHUP ||| EPOLLET, socket, .user a, some (.user 1)⟩
  file : ∃ f, w.kernel.file socket = some f ∧ f.id ≠ q.id
  entry : (w.kernel.interest q.id socket).bind (·.data) = some (.obj a)
  address : net.accept (a - 1) = some (w.storage.connection a).remoteAddress

theorem TalksTo.congr {net : Net} {q : File} {w w' : World Server} {a : Nat} {socket : Int}
    (h : TalksTo net q w a socket) (hd : w'.descriptors a = w.descriptors a)
    (hf : w'.kernel.file socket = w.kernel.file socket)
    (he : w'.kernel.interest q.id socket = w.kernel.interest q.id socket)
    (hc : w'.storage.connection a = w.storage.connection a) : TalksTo net q w' a socket where
  descriptor := hd.trans h.descriptor
  file := by rw [hf]; exact h.file
  entry := by rw [he]; exact h.entry
  address := by rw [hc]; exact h.address

/-- What may be watched under a number: the pipe, the listening socket, and the socket of a connection that
has been accepted and not closed. -/
def Watched (s : Server) (fd : Int) (p : EDPtr) : Prop :=
  p = .breakLoop 0 ∨ p = .obj 0 ∨ ∃ a, p = .obj a ∧ s.stage a = some (.talking fd)

theorem Watched.mono {s s' : Server} {fd : Int} {p : EDPtr} (h : Watched s fd p)
    (hstage : ∀ a, p = .obj a → s.stage a = some (.talking fd) → s'.stage a = some (.talking fd)) :
    Watched s' fd p := by
  rcases h with hp | hp | ⟨a, hp, ha⟩
  · exact Or.inl hp
  · exact Or.inr (Or.inl hp)
  · exact Or.inr (Or.inr ⟨a, hp, hstage a hp ha⟩)

/-- What holds whenever the library or a handler of the server is about to do something. -/
structure Conversing (net : Net) (m : EM Server) (q : File) (base : Int → Option File) (w : World Server) :
    Prop where
  machine : w.ems 0 = m
  queue : w.kernel.file m.queueFd = some q
  old : q.id < w.kernel.next
  listener : (w.descriptors 0).handler = some (.user 0)
  accepts : w.storage.accepts = w.storage.records
  lines : ∀ l ∈ w.storage.output, l.Proper net w.storage.records
  stages : ∀ a, ∃ st, w.storage.stage a = some st
  talking : ∀ a socket, w.storage.stage a = some (.talking socket) → TalksTo net q w a socket
  registered : ∀ fd e, w.kernel.interest q.id fd = some e → ∃ p, e.data = some p ∧ Watched w.storage fd p
  sockets : Sockets base w

namespace Conversing
variable {net : Net} {m : EM Server} {q : File} {base : Int → Option File} {w w' : World Server}
  {a : Nat} {socket : Int}

theorem record (h : Conversing net m q base w) (ha : w.storage.stage a = some (.talking socket)) :
    1 ≤ a ∧ a ≤ w.storage.records := by
  by_contra hout
  have hfresh := Server.stage_fresh h.lines (a := a) (by omega)
  rw [ha] at hfresh
  cases hfresh

theorem unique (h : Conversing net m q base w) {b : Nat} (ha : w.storage.stage a = some (.talking socket))
    (hb : w.storage.stage b = some (.talking socket)) : a = b := by
  have hentry := (h.talking a socket ha).entry
  rw [(h.talking b socket hb).entry] at hentry
  exact (EDPtr.obj.inj (Option.some.inj hentry)).symm

theorem queue_ne (h : Conversing net m q base w) (ha : w.storage.stage a = some (.talking socket)) :
    m.queueFd ≠ socket := by
  rintro rfl
  obtain ⟨f, hf, hid⟩ := (h.talking a _ ha).file
  rw [h.queue] at hf
  exact hid (congrArg File.id (Option.some.inj hf)).symm

theorem setStorage (h : Conversing net m q base w) {s : Server} (haccepts : s.accepts = s.records)
    (hrecords : w.storage.records ≤ s.records)
    (hlines : ∀ l ∈ s.output, l ∈ w.storage.output ∨ l.Proper net s.records)
    (hstage : ∀ a, s.stage a = w.storage.stage a) (hrefusals : s.refusals = w.storage.refusals)
    (hconnection : ∀ a ≤ w.storage.records, s.connection a = w.storage.connection a) :
    Conversing net m q base (w.setStorage s) where
  machine := h.machine
  queue := h.queue
  old := h.old
  listener := h.listener
  accepts := haccepts
  lines l hl := (hlines l hl).elim (fun hl => (h.lines l hl).mono hrecords) id
  stages a := by
    show ∃ st, s.stage a = some st
    rw [hstage]
    exact h.stages a
  talking a socket ha := by
    change s.stage a = _ at ha
    rw [hstage] at ha
    exact (h.talking a socket ha).congr rfl rfl rfl (hconnection a (h.record ha).2)
  registered fd e he := by
    obtain ⟨p, hp, hwatched⟩ := h.registered fd e he
    refine ⟨p, hp, hwatched.mono fun a _ ha => ?_⟩
    exact (hstage a).trans ha
  sockets := h.sockets.congr (fun _ => rfl) hstage hrefusals

theorem calm (h : Conversing net m q base w) (hcalm : Calm w w') : Conversing net m q base w' := by
  have hs : w'.storage = w.storage := congrArg (·.storage) hcalm
  have hd : w'.descriptors = w.descriptors := congrArg (·.descriptors) hcalm
  constructor
  · rw [hcalm.ems]
    exact h.machine
  · rw [hcalm.file]
    exact h.queue
  · rw [hcalm.next]
    exact h.old
  · rw [hd]
    exact h.listener
  · rw [hs]
    exact h.accepts
  · rw [hs]
    exact h.lines
  · rw [hs]
    exact h.stages
  · intro a socket ha
    rw [hs] at ha
    exact (h.talking a socket ha).congr (by rw [hd]) (hcalm.file _) (by rw [hcalm.interest]) (by rw [hs])
  · rw [hs, hcalm.interest]
    exact h.registered
  · exact h.sockets.congr hcalm.file (fun _ => by rw [hs]) (by rw [hs])

theorem received (h : Conversing net m q base w) (ha : w.storage.stage a = some (.talking socket)) :
    let s := w.storage.received net (.user a) socket (w.storage.connection a).remoteAddress
    Conversing net m q base (w.setStorage s) ∧ s.connection = w.storage.connection ∧
      ∀ b, s.stage b = w.storage.stage b := by
  unfold Server.received
  cases net.text w.storage.reads with
  | none =>
    exact ⟨h.setStorage h.accepts (Nat.le_refl _) (fun l => Or.inl) (Server.stage_congr rfl) rfl
      fun _ _ => rfl, rfl, Server.stage_congr rfl⟩
  | some bytes =>
    dsimp only
    have hstage : ∀ b, ({ w.storage with reads := w.storage.reads + 1 }.print ⟨.user a, socket,
        .text (w.storage.connection a).remoteAddress bytes⟩ : Server).stage b = w.storage.stage b := by
      intro b
      by_cases hb : b = a
      · subst hb
        rw [Server.stage_append (s := w.storage) rfl rfl ha, ha]
        simp [Stage.next]
      · exact Server.stage_append_of_ne rfl rfl hb
    have hrefusals : ({ w.storage with reads := w.storage.reads + 1 }.print ⟨.user a, socket,
        .text (w.storage.connection a).remoteAddress bytes⟩ : Server).refusals = w.storage.refusals := by
      simp [Server.refusals, Server.print, Line.refusal]
    refine ⟨h.setStorage h.accepts (Nat.le_refl _) (fun l hl => ?_) hstage hrefusals fun _ _ => rfl, rfl,
      hstage⟩
    rcases List.mem_append.1 hl with hl | hl
    · exact Or.inl hl
    · obtain rfl := List.mem_singleton.1 hl
      obtain ⟨hpos, hle⟩ := h.record ha
      refine Or.inr ⟨a, rfl, hpos, hle, ?_⟩
      rintro _ ⟨⟩
      exact (h.talking a socket ha).address

theorem hungUp (h : Conversing net m q base w) (ha : w.storage.stage a = some (.talking socket))
    (hu : HungUp net socket (.user a) (w.storage.connection a).remoteAddress w w') :
    Conversing net m q base w' ∧ ∀ b, b ≠ a → w'.storage.stage b = w.storage.stage b := by
  obtain ⟨f, hf, hid⟩ := (h.talking a socket ha).file
  obtain ⟨l, hstorage, -⟩ := hu.storage
  have hout : w'.storage.output = w.storage.output ++ [⟨.user a, socket,
    .closed (w.storage.connection a).remoteAddress⟩] := by rw [hstorage]
  have hrecords : w'.storage.records = w.storage.records := by rw [hstorage]
  have hover : w'.storage.stage a = some .over := by
    rw [Server.stage_append hout rfl ha]
    simp [Stage.next]
  have hstage : ∀ b, b ≠ a → w'.storage.stage b = w.storage.stage b := fun b hb =>
    Server.stage_append_of_ne hout rfl hb
  have hinterest : ∀ n, n ≠ socket → w'.kernel.interest q.id n = w.kernel.interest q.id n := by
    intro n hn
    rw [hu.interest f hf, if_neg]
    rintro (hq | hn')
    · exact hid hq.symm
    · exact hn hn'
  have hgone : w'.kernel.interest q.id socket = none := by
    rw [hu.interest f hf, if_pos (Or.inr rfl)]
  have hd : w'.descriptors = w.descriptors := congrArg (·.descriptors) hu.only
  have hrefusals : w'.storage.refusals = w.storage.refusals := by
    rw [Server.refusals, hout]
    simp [Server.refusals, Line.refusal]
  refine ⟨⟨?_, ?_, ?_, ?_, ?_, fun l hl => ?_, fun b => ?_, fun b n hb => ?_, fun n e he => ?_,
    h.sockets.hungUp ha (fun b hb => h.unique hb ha) hu.file (fun n => ?_) hstage hrefusals⟩, hstage⟩
  · exact (congrArg (·.ems 0) hu.only).trans h.machine
  · rw [hu.file, if_neg (h.queue_ne ha)]
    exact h.queue
  · rw [hu.next]
    exact h.old
  · rw [hd]
    exact h.listener
  · rw [hrecords, hstorage]
    exact h.accepts
  · rw [hout] at hl
    rw [hrecords]
    rcases List.mem_append.1 hl with hl | hl
    · exact h.lines l hl
    · obtain rfl := List.mem_singleton.1 hl
      obtain ⟨hpos, hle⟩ := h.record ha
      refine ⟨a, rfl, hpos, hle, ?_⟩
      rintro _ ⟨⟩
      exact (h.talking a socket ha).address
  · by_cases hb : b = a
    · exact ⟨_, hb ▸ hover⟩
    · rw [hstage b hb]
      exact h.stages b
  · have hba : b ≠ a := by
      rintro rfl
      rw [hover] at hb
      cases hb
    rw [hstage b hba] at hb
    have hn : n ≠ socket := by
      rintro rfl
      exact hba (h.unique hb ha)
    refine (h.talking b n hb).congr (by rw [hd]) ?_ (hinterest n hn) (by rw [hstorage])
    rw [hu.file, if_neg hn]
  · have hn : n ≠ socket := by
      rintro rfl
      rw [hgone] at he
      cases he
    rw [hinterest n hn] at he
    obtain ⟨p, hp, hwatched⟩ := h.registered n e he
    refine ⟨p, hp, hwatched.mono fun b _ hb => ?_⟩
    rw [hstage b]
    · exact hb
    · rintro rfl
      rw [ha] at hb
      exact hn (Stage.talking.inj (Option.some.inj hb)).symm
  · rw [hover]
    exact nofun

end Conversing

/-- A connection has been accepted, and it is watched or it has been given up. -/
structure Joined (net : Net) (q : File) (address : UInt32) (message : Message) (w w' : World Server) :
    Prop where
  accept : net.accept w.storage.accepts = some address
  ems : w'.ems = w.ems
  file : ∀ n, w'.kernel.file n = (w.connected address).kernel.file n
  next : w'.kernel.next = (w.connected address).kernel.next
  descriptors : w'.descriptors = (w.connected address).descriptors
  storage : w'.storage = (w.storage.connected address).print
    ⟨.user (w.storage.records + 1), w.kernel.files.lowest, message⟩
  interest : ∀ n : Int, n ≠ w.kernel.files.lowest →
    w'.kernel.interest q.id n = w.kernel.interest q.id n
  entry : message = .addFailed ∧
      w'.kernel.interest q.id w.kernel.files.lowest = w.kernel.interest q.id w.kernel.files.lowest ∨
    message = .accepted address ∧ ∃ bits, w'.kernel.interest q.id w.kernel.files.lowest =
      some ⟨bits, some (.obj (w.storage.records + 1))⟩

namespace Joined
variable {net : Net} {m : EM Server} {q : File} {base : Int → Option File} {address : UInt32}
  {message : Message}
  {w w' : World Server} {a : Nat} {socket : Int}

theorem opens (w : World Server) (address : UInt32) :
    w.kernel.Opens w.kernel.files.lowest ⟨w.kernel.next, .other, .other, 0, false⟩
      (w.connected address).kernel := .of_files rfl rfl rfl

theorem records (hj : Joined net q address message w w') :
    w'.storage.records = w.storage.records + 1 := by
  rw [hj.storage]
  rfl

theorem output (hj : Joined net q address message w w') : w'.storage.output = w.storage.output ++
    [⟨.user (w.storage.records + 1), w.kernel.files.lowest, message⟩] := by
  rw [hj.storage]
  rfl

theorem stage_self (hj : Joined net q address message w w') (h : Conversing net m q base w) :
    w'.storage.stage (w.storage.records + 1) =
      Stage.next .fresh ⟨.user (w.storage.records + 1), w.kernel.files.lowest, message⟩ :=
  Server.stage_append hj.output rfl (Server.stage_fresh h.lines (Or.inr (Nat.lt_succ_self _)))

theorem stage_of_ne (hj : Joined net q address message w w') (ha : a ≠ w.storage.records + 1) :
    w'.storage.stage a = w.storage.stage a :=
  Server.stage_append_of_ne hj.output rfl ha

theorem file_of_some (hj : Joined net q address message w w') {n : Int} {f : File}
    (hf : w.kernel.file n = some f) :
    n ≠ w.kernel.files.lowest ∧ w'.kernel.file n = w.kernel.file n := by
  have hn : n ≠ w.kernel.files.lowest := by
    rintro rfl
    rw [(opens w address).free] at hf
    cases hf
  refine ⟨hn, ?_⟩
  rw [hj.file, (opens w address).file, if_neg hn]

theorem talking_new (hj : Joined net q address message w w') (h : Conversing net m q base w)
    (ha : w'.storage.stage (w.storage.records + 1) = some (.talking socket)) :
    TalksTo net q w' (w.storage.records + 1) socket := by
  rw [hj.stage_self h] at ha
  rcases hj.entry with ⟨rfl, -⟩ | ⟨rfl, bits, hentry⟩
  · cases ha
  · obtain rfl := Stage.talking.inj (Option.some.inj ha)
    refine ⟨?_, ⟨⟨w.kernel.next, .other, .other, 0, false⟩, ?_, Nat.ne_of_gt h.old⟩, ?_, ?_⟩
    · rw [hj.descriptors, World.connected_descriptors, if_pos rfl]
    · rw [hj.file, (opens w address).file, if_pos rfl]
    · rw [hentry]
      rfl
    · rw [hj.storage]
      show _ = some ((w.storage.connected address).connection _).remoteAddress
      rw [Server.connected_connection, if_pos rfl, Nat.add_sub_cancel, ← h.accepts]
      exact hj.accept

theorem talking_old (hj : Joined net q address message w w') (h : Conversing net m q base w)
    (hne : a ≠ w.storage.records + 1) (ha : w'.storage.stage a = some (.talking socket)) :
    TalksTo net q w' a socket := by
  rw [hj.stage_of_ne hne] at ha
  have ht := h.talking a socket ha
  obtain ⟨f, hf, -⟩ := ht.file
  obtain ⟨hn, hfile⟩ := hj.file_of_some hf
  refine ht.congr ?_ hfile (hj.interest socket hn) ?_
  · rw [hj.descriptors, World.connected_descriptors, if_neg hne]
  · rw [hj.storage]
    show (w.storage.connected address).connection a = _
    rw [Server.connected_connection, if_neg hne]

theorem registered (hj : Joined net q address message w w') (h : Conversing net m q base w) {n : Int}
    {e : EpollEvent} (he : w'.kernel.interest q.id n = some e) :
    ∃ p, e.data = some p ∧ Watched w'.storage n p := by
  have hold : w.kernel.interest q.id n = some e → ∃ p, e.data = some p ∧ Watched w'.storage n p := by
    intro he
    obtain ⟨p, hp, hwatched⟩ := h.registered n e he
    refine ⟨p, hp, hwatched.mono fun b _ hb => ?_⟩
    rw [hj.stage_of_ne (Nat.ne_of_lt (Nat.lt_succ_of_le (h.record hb).2))]
    exact hb
  by_cases hn : n = w.kernel.files.lowest
  · subst hn
    rcases hj.entry with ⟨-, hentry⟩ | ⟨rfl, bits, hentry⟩
    · rw [hentry] at he
      exact hold he
    · rw [hentry] at he
      obtain rfl := Option.some.inj he
      exact ⟨_, rfl, Or.inr (Or.inr ⟨_, rfl, hj.stage_self h⟩)⟩
  · rw [hj.interest n hn] at he
    exact hold he

theorem proper (hj : Joined net q address message w w') (h : Conversing net m q base w) {l : Line}
    (hl : l ∈ w'.storage.output) : l.Proper net w'.storage.records := by
  rw [hj.output] at hl
  rw [hj.records]
  rcases List.mem_append.1 hl with hl | hl
  · exact (h.lines l hl).mono (Nat.le_succ _)
  · obtain rfl := List.mem_singleton.1 hl
    refine ⟨_, rfl, Nat.succ_le_succ (Nat.zero_le _), Nat.le_refl _, fun shown hshown => ?_⟩
    rw [Nat.add_sub_cancel, ← h.accepts, hj.accept]
    rcases hj.entry with ⟨rfl, -⟩ | ⟨rfl, -⟩
    · cases hshown
    · exact hshown

theorem sockets (hj : Joined net q address message w w') (h : Conversing net m q base w) :
    Sockets base w' := by
  have hfresh := Server.stage_fresh h.lines (Or.inr (Nat.lt_succ_self w.storage.records))
  have hself := hj.stage_self h
  have hrefusals : w'.storage.refusals = w.storage.refusals ++
      [⟨.user (w.storage.records + 1), w.kernel.files.lowest, message⟩].filterMap Line.refusal := by
    rw [Server.refusals, hj.output, List.filterMap_append, Server.refusals]
  refine h.sockets.joined (opens w address).free
    (fun n => (hj.file n).trans ((opens w address).file n)) (fun n => ?_) (fun b => hj.stage_of_ne) ?_
  · rw [hfresh]
    exact nofun
  · rcases hj.entry with ⟨rfl, -⟩ | ⟨rfl, -⟩
    · refine Or.inl ⟨fun n => ?_, hrefusals⟩
      rw [hself]
      exact nofun
    · exact Or.inr ⟨hself, hrefusals.trans (List.append_nil _)⟩

theorem conversing (hj : Joined net q address message w w') (h : Conversing net m q base w) :
    Conversing net m q base w' := by
  refine ⟨?_, ?_, ?_, ?_, ?_, fun l => hj.proper h, fun b => ?_, fun b n hb => ?_, fun n e =>
    hj.registered h, hj.sockets h⟩
  · rw [hj.ems]
    exact h.machine
  · rw [(hj.file_of_some h.queue).2]
    exact h.queue
  · rw [hj.next, (opens w address).next]
    exact Nat.lt_succ_of_lt h.old
  · rw [hj.descriptors, World.connected_descriptors, if_neg (Nat.succ_ne_zero _).symm]
    exact h.listener
  · rw [hj.records, hj.storage]
    exact congrArg (· + 1) h.accepts
  · by_cases hb : b = w.storage.records + 1
    · rw [hb, hj.stage_self h]
      rcases hj.entry with ⟨rfl, -⟩ | ⟨rfl, -⟩
      · exact ⟨_, rfl⟩
      · exact ⟨_, rfl⟩
    · rw [hj.stage_of_ne hb]
      exact h.stages b
  · by_cases hnew : b = w.storage.records + 1
    · subst hnew
      exact hj.talking_new h hb
    · exact hj.talking_old h hnew hb

end Joined

namespace Conversing
variable {net : Net} {m : EM Server} {q : File} {base : Int → Option File} {w w' : World Server}
  {a : Nat} {socket : Int}

theorem acceptHandler (h : Conversing net m q base w) (hout : AcceptOutcome net 0 w w') :
    Conversing net m q base w' ∧
      ∀ b, b ≠ w.storage.records + 1 → w'.storage.stage b = w.storage.stage b := by
  cases hout with
  | noMemory _ eq =>
    rw [eq]
    exact ⟨h.setStorage h.accepts (Nat.le_refl _) (fun _ => Or.inl) (Server.stage_congr rfl)
      rfl fun _ _ => rfl, fun b _ => Server.stage_congr rfl b⟩
  | notAccepted _ eq =>
    rw [eq]
    refine ⟨h.setStorage (congrArg (· + 1) h.accepts) (Nat.le_succ _) (fun _ => Or.inl)
      (Server.stage_congr rfl) rfl fun b hb => ?_, fun b _ => Server.stage_congr rfl b⟩
    have hne : b ≠ w.storage.records + 1 := by omega
    simp [Server.allocated, hne]
  | notAdded address _ haccept core =>
    have hj : Joined net q address .addFailed w w' :=
      { accept := haccept
        ems := congrArg (·.ems) core
        file := fun n => (World.file_congr core n).trans rfl
        next := congrArg (·.kernel.next) core
        descriptors := congrArg (·.descriptors) core
        storage := congrArg (·.storage) core
        interest := fun n _ => congrFun (congrArg (·.kernel.interest q.id) core) n
        entry := Or.inl ⟨rfl, congrFun (congrArg (·.kernel.interest q.id) core) _⟩ }
    exact ⟨hj.conversing h, fun _ => hj.stage_of_ne⟩
  | added address q' _ haccept can core =>
    have hset : w'.kernel.interest = ((w.connected address).setInterest q'.id _ _).kernel.interest :=
      congrArg (·.kernel.interest) core
    obtain rfl : q' = q := by
      have hopens : w.kernel.Opens _ _ (w.connected address).kernel := .of_files rfl rfl rfl
      have hqueue := can.queue
      rw [h.machine, hopens.file] at hqueue
      split at hqueue
      · next heq =>
        have hfree := hopens.free
        rw [← heq, h.queue] at hfree
        cases hfree
      · exact Option.some.inj (hqueue.symm.trans h.queue)
    have hj : Joined net q' address (.accepted address) w w' :=
      { accept := haccept
        ems := congrArg (·.ems) core
        file := fun n => (World.file_congr core n).trans rfl
        next := congrArg (·.kernel.next) core
        descriptors := congrArg (·.descriptors) core
        storage := congrArg (·.storage) core
        interest := fun n hn => ?_
        entry := Or.inr ⟨rfl, EPOLLIN ||| EPOLLRDHUP ||| EPOLLET, ?_⟩ }
    · exact ⟨hj.conversing h, fun _ => hj.stage_of_ne⟩
    · rw [hset]
      show Function.update w.kernel.interest q'.id _ q'.id n = _
      rw [Function.update_self]
      exact Function.update_of_ne hn ..
    · rw [hset]
      show Function.update w.kernel.interest q'.id _ q'.id _ = _
      rw [Function.update_self, Function.update_self]

theorem connectionHadnler (h : Conversing net m q base w) (ha : w.storage.stage a = some (.talking socket))
    (hout : ConnectionOutcome net socket (.user a) (w.storage.connection a) w w') :
    Conversing net m q base w' ∧ ∀ b, b ≠ a → w'.storage.stage b = w.storage.stage b := by
  have hheard : ∀ s, (s = w.storage ∨ s = w.storage.received net (.user a) socket
      (w.storage.connection a).remoteAddress) → Conversing net m q base (w.setStorage s) ∧
        s.connection = w.storage.connection ∧ ∀ b, s.stage b = w.storage.stage b := by
    rintro s (rfl | rfl)
    · exact ⟨h, rfl, fun _ => rfl⟩
    · exact h.received ha
  cases hout with
  | stays s hs eq =>
    obtain ⟨hc, -, hstage⟩ := hheard s hs
    rw [eq]
    exact ⟨hc, fun b _ => hstage b⟩
  | closed s hs hu =>
    obtain ⟨hc, hconnection, hstage⟩ := hheard s hs
    have ha' : (w.setStorage s).storage.stage a = some (.talking socket) := (hstage a).trans ha
    rw [← hconnection] at hu
    obtain ⟨hc', hstage'⟩ := hc.hungUp ha' hu
    exact ⟨hc', fun b hb => (hstage' b hb).trans (hstage b)⟩

end Conversing

end EventMachine
