/-
**No two blocks over one aggregate root.**

An aggregate root may be in several trees at once: a connection that closes makes the broker deliver
it again, while a tree over its old delivery is still under way.  A tree becomes a block when all
its deliveries were acknowledged, and of all deliveries of a message at most one ever is.  So no two
blocks cover the same message, and a message that a block covers is not delivered again.  Nothing
has to be assumed of what others call.

Main definitions:

* `HashCalendar.Finalizer.Covers` — a job covers a message;
* `HashCalendar.CalendarStation.Regular` — the invariant.

Main results:

* `HashCalendar.CalendarStation.regular_run` — every run keeps the invariant;
* `HashCalendar.blocks_cover_disjoint_messages` — **the blocks of a run**.
-/

import HashCalendar.Proofs.Broker.Latest
import HashCalendar.Proofs.Calendar.Finalizers

set_option relaxedAutoImplicit false
set_option autoImplicit false

namespace HashCalendar

/-- A delivery that is unacknowledged was not acknowledged. -/
theorem Tracked.Sound.tag_ne_of_acked {t : Tracked} (h : t.Sound) {u v : Broker.Unacked}
    (hu : u ∈ t.broker.unacked) (hv : v ∈ t.ledger.acked) : v.tag ≠ u.tag := by
  have hnodup : (t.broker.unacked ++ t.ledger.ended).Nodup :=
    h.fates.nodup_iff.1 (List.Nodup.of_map _ h.handed_tags)
  have hended : v ∈ t.ledger.ended := by simp [Ledger.ended, hv]
  intro htag
  have heq := h.eq_of_tag_eq (h.mem_handed_of_acked hv) (h.mem_handed_of_unacked hu) htag
  exact (List.nodup_append.1 hnodup).2.2 u hu v hended heq.symm

/-- A job covers a message: it is over a delivery of it. -/
def Finalizer.Covers (l : Ledger) (w : Finalizer) (n : Nat) : Prop :=
  ∃ u ∈ l.handed, u.message.serial = n ∧ ∃ p ∈ w.roots, p.handle.tag = u.tag

namespace CalendarStation

/-! ### The invariant -/

/-- The aggregate roots that the tier has taken in and not forgotten. -/
def roots (s : CalendarStation) : List PendingRoot :=
  s.chainer.pending.items ++
    (s.chainer.built.flatMap BuiltTree.roots ++ s.finalizers.flatMap Finalizer.roots)

/-- The tags of the deliveries that the tier has received and not forgotten. -/
def tags (s : CalendarStation) : List Nat :=
  s.inHand.map (fun d => d.1.tag) ++ s.roots.map fun p => p.handle.tag

/-- What is true of the tier in every run. -/
structure Regular (c : Config) (s : CalendarStation) : Prop where
  settings : s.link.settings = c.calendarLink
  config : s.chainer.config = c.calendar
  queues : s.chainer.queues = c.queues
  latest : s.tracked.Latest
  feeds : s.toLine.Feeds s.tags
  in_hand : ∀ d ∈ s.inHand, ∃ u ∈ s.ledger.handed, u.tag = d.1.tag ∧
    u.queue = c.queues.calendarIn ∧ u.message.content = d.2
  rooted : ∀ p ∈ s.roots, s.ledger.Rooted c.queues.calendarIn p
  built : ∀ b ∈ s.chainer.built, BuiltTree.IsOver b.tree b.roots
  honest : ∀ w ∈ s.finalizers, w.Honest c.queues c.calendar.baseUri s.ledger
  /-- No delivery was acknowledged by two jobs. -/
  once : (s.finalizers.flatMap Finalizer.acked).Nodup

namespace Regular

variable {c : Config} {s : CalendarStation}

theorem start (c : Config) : Regular c (.ofConfig c) where
  settings := rfl
  config := rfl
  queues := rfl
  latest := .empty
  feeds := Tracked.Feeding.empty _
  in_hand := by simp [ofConfig]
  rooted := by simp [ofConfig, roots]
  built := by simp [ofConfig]
  honest := by simp [ofConfig]
  once := by simp [ofConfig]

/-- Whatever is done to the broker, what is known of the past stays true. -/
theorem withLine (h : Regular c s) {l : Line} (hsettings : l.link.settings = s.link.settings)
    {calls : List Broker.Call} (hl : l.tracked = s.tracked.performAll calls)
    (hfeeds : l.Feeds s.tags) : Regular c { s with toLine := l } := by
  have hg : s.ledger.Grows .any l.tracked.ledger := by
    rw [hl]
    exact .performAll_any _ _
  constructor
  case settings => exact hsettings.trans h.settings
  case config => exact h.config
  case queues => exact h.queues
  case latest =>
    simp only [hl]
    exact h.latest.performAll calls
  case feeds => exact hfeeds
  case in_hand =>
    intro d hd
    obtain ⟨u, hu, hprops⟩ := h.in_hand d hd
    exact ⟨u, hg.handed.mem hu, hprops⟩
  case rooted => exact fun p hp => (h.rooted p hp).mono hg
  case built => exact h.built
  case honest => exact fun w hw => (h.honest w hw).mono hg
  case once => exact h.once

theorem performAll (h : Regular c s) (calls : List Broker.Call) :
    Regular c { s with toLine := s.toLine.performAll calls } :=
  h.withLine rfl rfl (h.feeds.performAll calls)

theorem attempt (h : Regular c s) (incident : Incident) :
    Regular c { s with toLine := s.toLine.attempt incident } := by
  obtain ⟨calls, hcalls⟩ := s.toLine.exists_attempt_tracked incident
  exact h.withLine (Line.attempt_settings _ _) hcalls (h.feeds.attempt incident)

theorem receive (h : Regular c s) : Regular c s.receive := by
  rw [CalendarStation.receive]
  rcases s.toLine.receive_cases with ⟨r, d, hr, hd, heq⟩ | heq
  · rw [heq]
    obtain ⟨hfeeds, u, hu, htag, hmessage, hqueue, -⟩ := h.feeds.receive hr hd
    have hperformed := h.performAll [.receive r.stream]
    refine { hperformed with feeds := ?_, in_hand := ?_ }
    · refine hfeeds.subset ?_
      intro tag htag
      simp only [tags, Option.toList_some, List.map_append, List.map_cons, List.map_nil,
        List.append_assoc, List.mem_append, List.mem_cons] at htag ⊢
      rcases htag with htag | (rfl | htag) | htag
      · exact Or.inr (Or.inl htag)
      · exact Or.inl rfl
      · cases htag
      · exact Or.inr (Or.inr htag)
    · intro e he
      rcases List.mem_append.1 he with he | he
      · exact hperformed.in_hand e he
      · have hgrows := Ledger.Grows.performAll_any s.tracked [.receive r.stream]
        rw [Option.toList_some, List.mem_singleton] at he
        rw [he]
        refine ⟨u, hgrows.handed.mem hu, htag, ?_, congrArg Message.content hmessage⟩
        rw [hqueue, h.settings]
        rfl
  · rw [heq]
    refine { h with feeds := ?_, in_hand := ?_ }
    · simpa [tags, roots] using h.feeds
    · simpa using h.in_hand

/-- The tier forgets some of what it has received. -/
theorem forget (h : Regular c s) {chainer : Chainer} {inHand : List (Handle × Content)}
    (hconfig : chainer.config = s.chainer.config) (hqueues : chainer.queues = s.chainer.queues)
    (hhand : inHand ⊆ s.inHand) (hpending : chainer.pending.items ⊆ s.chainer.pending.items)
    (hbuilt : chainer.built ⊆ s.chainer.built) : Regular c { s with chainer, inHand } := by
  have hroots : CalendarStation.roots { s with chainer, inHand } ⊆ s.roots := by
    intro p hp
    simp only [CalendarStation.roots, List.mem_append, List.mem_flatMap] at hp ⊢
    exact hp.imp (fun hp => hpending hp) (Or.imp_left fun ⟨b, hb, hp⟩ => ⟨b, hbuilt hb, hp⟩)
  have htags : CalendarStation.tags { s with chainer, inHand } ⊆ s.tags := by
    intro tag htag
    rcases List.mem_append.1 htag with htag | htag
    · exact List.mem_append_left _ (List.map_subset _ hhand htag)
    · exact List.mem_append_right _ (List.map_subset _ hroots htag)
  constructor
  case settings => exact h.settings
  case config => exact hconfig.trans h.config
  case queues => exact hqueues.trans h.queues
  case latest => exact h.latest
  case feeds => exact h.feeds.subset htags
  case in_hand => exact fun d hd => h.in_hand d (hhand hd)
  case rooted => exact fun p hp => h.rooted p (hroots hp)
  case built => exact fun b hb => h.built b (hbuilt hb)
  case honest => exact h.honest
  case once => exact h.once

theorem ingest (h : Regular c s) {number : Nat} {d : Handle × Content}
    (hd : s.inHand[number]? = some d) : Regular c (s.act (.ingest number)) := by
  obtain ⟨handle, content⟩ := d
  have hmem := List.mem_of_getElem? hd
  obtain ⟨u, hu, htag, hqueue, hcontent⟩ := h.in_hand _ hmem
  have hhand : s.inHand.eraseIdx number ⊆ s.inHand := List.eraseIdx_subset
  rw [act, hd]
  dsimp only
  rw [CalendarStation.ingest, Chainer.ingest, ingestCalls]
  cases hread : Inbound.read content with
  | ok inbound =>
      cases inbound with
      | aggregateRoot m =>
          -- The delivery goes from the hand to the end of the buffer.
          have hroots : ∀ p ∈ CalendarStation.roots { s with
              chainer := { s.chainer with pending := s.chainer.pending.push ⟨m, handle⟩ } },
              p ∈ s.roots ∨ p = ⟨m, handle⟩ := by
            intro p hp
            simp only [CalendarStation.roots, Buffer.push, List.mem_append,
              List.mem_singleton] at hp ⊢
            tauto
          refine { h with feeds := ?_, in_hand := ?_, rooted := ?_ }
          · refine h.feeds.subset ?_
            intro tag htag
            rcases List.mem_append.1 htag with htag | htag
            · exact List.mem_append_left _ (List.map_subset _ hhand htag)
            · obtain ⟨p, hp, rfl⟩ := List.mem_map.1 htag
              rcases hroots p hp with hp | rfl
              · exact List.mem_append_right _ (List.mem_map_of_mem hp)
              · exact List.mem_append_left _ (List.mem_map_of_mem hmem)
          · exact fun d hd => h.in_hand d (hhand hd)
          · intro p hp
            rcases hroots p hp with hp | rfl
            · exact h.rooted p hp
            · exact ⟨u, hu, htag, hqueue, hcontent ▸ hread⟩
      | anchorTx body =>
          exact (h.performAll [.ack handle]).forget rfl rfl hhand (List.Subset.refl _)
            (List.Subset.refl _)
  | error e =>
      exact (h.performAll [.nack handle false]).forget rfl rfl hhand (List.Subset.refl _)
        (List.Subset.refl _)

theorem tick (h : Regular c s) (id : Uuid) : Regular c (s.tick id) := by
  rcases s.tick_cases id with heq | ⟨tree, hbuild, heq⟩
  · rw [heq]
    exact h
  · rw [heq]
    -- The head of the buffer becomes the roots of a tree.
    have hroots : ∀ p, p ∈ (s.keep tree).roots → p ∈ s.roots := by
      intro p hp
      simp only [keep, CalendarStation.roots, List.flatMap_append, List.flatMap_cons,
        List.flatMap_nil, List.append_nil, List.mem_append, ← s.nextBatch_append] at hp ⊢
      tauto
    refine { h with feeds := ?_, rooted := ?_, built := ?_ }
    · refine h.feeds.subset ?_
      intro tag htag
      rcases List.mem_append.1 htag with htag | htag
      · exact List.mem_append_left _ htag
      · exact List.mem_append_right _ (List.map_subset _ hroots htag)
    · exact fun p hp => h.rooted p (hroots p hp)
    · intro b hb
      rcases List.mem_append.1 hb with hb | hb
      · exact h.built b hb
      · rw [List.mem_singleton.1 hb]
        exact ⟨id, _, tree, hbuild, rfl, rfl, rfl⟩

theorem finalize (h : Regular c s) : Regular c s.finalize := by
  cases hch : s.link.channel with
  | none =>
      rw [finalize_of_none hch]
      exact h
  | some ch =>
      rw [finalize_of_some hch]
      -- The roots of each tree become those of its job.
      have hroots : (s.chainer.built.map fun built =>
          Finalizer.start (s.chainer.jobOf ch built) built.roots).flatMap Finalizer.roots =
          s.chainer.built.flatMap BuiltTree.roots := by
        rw [List.flatMap_map]
        rfl
      have hsame : CalendarStation.roots { s with
          chainer := { s.chainer with built := [] }
          finalizers := s.finalizers ++ s.chainer.built.map fun built =>
            Finalizer.start (s.chainer.jobOf ch built) built.roots } ⊆ s.roots := by
        intro p hp
        simp only [CalendarStation.roots, List.flatMap_append, hroots, List.flatMap_nil,
          List.nil_append, List.mem_append] at hp ⊢
        tauto
      have hacked : (s.chainer.built.map fun built =>
          Finalizer.start (s.chainer.jobOf ch built) built.roots).flatMap Finalizer.acked = [] := by
        rw [List.flatMap_map]
        exact List.flatMap_eq_nil_iff.2 fun _ _ => rfl
      refine { h with feeds := ?_, rooted := ?_, built := ?_, honest := ?_, once := ?_ }
      · refine h.feeds.subset ?_
        intro tag htag
        rcases List.mem_append.1 htag with htag | htag
        · exact List.mem_append_left _ htag
        · exact List.mem_append_right _ (List.map_subset _ hsame htag)
      · exact fun p hp => h.rooted p (hsame hp)
      · exact fun b hb => absurd hb List.not_mem_nil
      · intro w hw
        rcases List.mem_append.1 hw with hw | hw
        · exact h.honest w hw
        · obtain ⟨built, hbuilt, rfl⟩ := List.mem_map.1 hw
          rw [← h.queues, ← h.config]
          exact .start _ ch (h.built built hbuilt)
      · simp only [List.flatMap_append, hacked, List.append_nil]
        exact h.once

theorem advance (h : Regular c s) (number : Nat) : Regular c (s.advance number) := by
  cases hw : s.finalizers[number]? with
  | none =>
      rw [CalendarStation.advance, hw]
      exact h
  | some w =>
      rw [advance_of_getElem? hw]
      have hon := h.honest w (List.mem_of_getElem? hw)
      have hperformed := h.performAll w.calls
      have hsame : CalendarStation.roots { s with
          toLine := s.toLine.performAll w.calls
          finalizers := s.finalizers.set number (w.advance s.broker) } ⊆ s.roots := by
        have hperm := perm_flatMap_set (f := Finalizer.roots) (y := w.advance s.broker) hw
          (List.Perm.refl (w.roots ++ []))
        intro p hp
        simp only [List.append_nil] at hperm
        simp only [CalendarStation.roots, List.mem_append, hperm.mem_iff] at hp ⊢
        exact hp
      refine { hperformed with feeds := ?_, rooted := ?_, honest := ?_, once := ?_ }
      · refine hperformed.feeds.subset ?_
        intro tag htag
        rcases List.mem_append.1 htag with htag | htag
        · exact List.mem_append_left _ htag
        · exact List.mem_append_right _ (List.map_subset _ hsame htag)
      · exact fun p hp => hperformed.rooted p (hsame hp)
      · intro v hv
        rcases List.mem_or_eq_of_mem_set hv with hv | rfl
        · exact hperformed.honest v hv
        · exact hon.advance h.latest.sound
      · have hacked : ((w.advance s.broker).acked ++ []).Perm
            (w.acked ++ (w.progress.acks? s.broker).toList) := by
          simp [Finalizer.advance]
        have hperm := perm_flatMap_set hw hacked
        rw [List.append_nil] at hperm
        refine hperm.nodup_iff.2 ?_
        rcases w.progress.ack_cases w.job.channel s.tracked with
          ⟨handle, -, -, u, hu, -, htag, -, hsome, -⟩ | ⟨hnone, -⟩
        · rw [show w.progress.acks? s.broker = some handle.tag from hsome]
          refine List.nodup_append.2 ⟨h.once, List.nodup_singleton _, ?_⟩
          intro tag hmem tag' htag' heq
          obtain ⟨v, hv, hacked⟩ := List.mem_flatMap.1 hmem
          obtain ⟨u', hu', hutag⟩ := (h.honest v hv).acked tag hacked
          rw [Option.toList_some, List.mem_singleton] at htag'
          -- What is acknowledged now was not acknowledged before.
          exact h.latest.sound.tag_ne_of_acked hu hu' (by omega)
        · rw [show w.progress.acks? s.broker = none from hnone]
          simpa using h.once

/-- Whatever happens keeps the invariant. -/
theorem act (h : Regular c s) (e : Event) : Regular c (s.act e) := by
  cases e with
  | call call => exact h.performAll [call]
  | attempt incident => exact h.attempt incident
  | closeLink => exact { h with }
  | detach =>
      exact h.forget rfl rfl (List.Subset.refl _) (List.nil_subset _) (List.nil_subset _)
  | receive => exact h.receive
  | ingest number =>
      cases hd : s.inHand[number]? with
      | none =>
          rw [CalendarStation.act, hd]
          exact h
      | some d => exact h.ingest hd
  | tick id => exact h.tick id
  | finalize => exact h.finalize
  | advance number => exact h.advance number

end Regular

/-- Every run keeps the invariant. -/
theorem Regular.actAll {c : Config} {s : CalendarStation} (h : Regular c s)
    (events : List Event) : Regular c (s.actAll events) :=
  actAll_induction (fun _ e hs => hs.act e) h events

theorem regular_run (c : Config) (events : List Event) : Regular c (run c events) :=
  (Regular.start c).actAll events

/-! ### Blocks -/

namespace Regular

variable {c : Config} {s : CalendarStation}

/-- The deliveries of a job that has emitted a block were acknowledged. -/
theorem exists_acked (h : Regular c s) {w : Finalizer} (hw : w ∈ s.finalizers) {block : Block}
    (hb : w.block? = some block) {p : PendingRoot} (hp : p ∈ w.roots) :
    ∃ u ∈ s.ledger.acked, u.tag = p.handle.tag ∧ u.queue = c.queues.calendarIn ∧
      Inbound.read u.message.content = .ok (.aggregateRoot p.message) := by
  have hon := h.honest w hw
  have htag : p.handle.tag ∈ w.acked := by
    rw [(hon.of_block hb).2.2, Finalizer.tags, hon.handles, List.map_map]
    exact List.mem_map_of_mem hp
  obtain ⟨u, hu, hutag⟩ := hon.acked _ htag
  have hroot : p ∈ s.roots := List.mem_append_right _
    (List.mem_append_right _ (List.mem_flatMap.2 ⟨w, hw, hp⟩))
  obtain ⟨v, hv, hvtag, hqueue, hread⟩ := h.rooted p hroot
  obtain rfl : u = v := h.latest.sound.eq_of_tag_eq (h.latest.sound.mem_handed_of_acked hu) hv
    (hutag.trans hvtag.symm)
  exact ⟨u, hu, hutag, hqueue, hread⟩

/-- What a block covers was acknowledged by its job. -/
theorem acked_of_covers (h : Regular c s) {w : Finalizer} (hw : w ∈ s.finalizers) {block : Block}
    (hb : w.block? = some block) {n : Nat} (hn : w.Covers s.ledger n) :
    ∃ u ∈ s.ledger.acked, u.message.serial = n ∧ u.queue = c.queues.calendarIn ∧
      u.tag ∈ w.acked ∧ u.tag ∈ s.tags := by
  obtain ⟨u, hu, hserial, p, hp, htag⟩ := hn
  obtain ⟨v, hv, hvtag, hqueue, -⟩ := h.exists_acked hw hb hp
  obtain rfl : v = u := h.latest.sound.eq_of_tag_eq (h.latest.sound.mem_handed_of_acked hv) hu
    (hvtag.trans htag)
  have hon := h.honest w hw
  refine ⟨v, hv, hserial, hqueue, ?_, ?_⟩
  · rw [(hon.of_block hb).2.2, Finalizer.tags, hon.handles, List.map_map, ← htag]
    exact List.mem_map_of_mem hp
  · rw [← htag]
    refine List.mem_append_right _ (List.mem_map_of_mem (List.mem_append_right _ ?_))
    exact List.mem_append_right _ (List.mem_flatMap.2 ⟨w, hw, hp⟩)

/-- No two blocks cover the same message. -/
theorem eq_of_covers (h : Regular c s) {k k' : Nat} {w w' : Finalizer} {block block' : Block}
    (hw : s.finalizers[k]? = some w) (hw' : s.finalizers[k']? = some w')
    (hb : w.block? = some block) (hb' : w'.block? = some block') {n : Nat}
    (hn : w.Covers s.ledger n) (hn' : w'.Covers s.ledger n) : k = k' := by
  obtain ⟨u, hu, hserial, -, htag, -⟩ := h.acked_of_covers (List.mem_of_getElem? hw) hb hn
  obtain ⟨u', hu', hserial', -, htag', -⟩ := h.acked_of_covers (List.mem_of_getElem? hw') hb' hn'
  have heq : u = u' := h.latest.sound.eq_of_serial_eq
    (List.mem_append_left _ (List.mem_append_right _ hu))
    (List.mem_append_left _ (List.mem_append_right _ hu')) (hserial.trans hserial'.symm)
  exact eq_of_mem_flatMap h.once hw hw' htag (heq ▸ htag')

/-- A block goes with one acknowledged delivery for each tag of its job. -/
theorem perm_tags (h : Regular c s) {w : Finalizer} (hw : w ∈ s.finalizers) {block : Block}
    (hb : w.block? = some block) :
    ((s.ledger.acked.filter fun u => u.tag ∈ w.tags).map Broker.Unacked.tag).Perm w.tags := by
  have hon := h.honest w hw
  have hsound := h.latest.sound
  obtain ⟨-, -, hacked⟩ := hon.of_block hb
  refine (List.perm_ext_iff_of_nodup ?_ ?_).2 ?_
  · refine (hsound.nodup_acked.filter _).map_on ?_
    intro u hu v hv huv
    exact hsound.eq_of_tag_eq (hsound.mem_handed_of_acked (List.mem_of_mem_filter hu))
      (hsound.mem_handed_of_acked (List.mem_of_mem_filter hv)) huv
  · rw [← hacked]
    exact (List.nodup_flatMap.1 h.once).1 w hw
  · intro tag
    simp only [List.mem_map, List.mem_filter, decide_eq_true_eq]
    constructor
    · rintro ⟨u, ⟨-, hu⟩, rfl⟩
      exact hu
    · intro htag
      obtain ⟨u, hu, rfl⟩ := hon.acked tag (hacked ▸ htag)
      exact ⟨u, ⟨hu, htag⟩, rfl⟩

/-- A block counts the messages that it covers. -/
theorem exists_covered (h : Regular c s) {w : Finalizer} (hw : w ∈ s.finalizers) {block : Block}
    (hb : w.block? = some block) :
    ∃ covered : List Nat, covered.Nodup ∧ covered.length = block.aggCount ∧
      ∀ n, n ∈ covered ↔ w.Covers s.ledger n := by
  have hon := h.honest w hw
  have hsound := h.latest.sound
  obtain ⟨hblock, -, hacked⟩ := hon.of_block hb
  refine ⟨(s.ledger.acked.filter fun u => u.tag ∈ w.tags).map fun u => u.message.serial,
    ?_, ?_, ?_⟩
  · refine (hsound.nodup_acked.filter _).map_on ?_
    intro u hu v hv huv
    exact hsound.eq_of_serial_eq
      (List.mem_append_left _ (List.mem_append_right _ (List.mem_of_mem_filter hu)))
      (List.mem_append_left _ (List.mem_append_right _ (List.mem_of_mem_filter hv))) huv
  · obtain ⟨id, f, built, hbuild, -, -, hpaths⟩ := hon.tree
    have hlen := (h.perm_tags hw hb).length_eq
    rw [List.length_map] at hlen ⊢
    rw [hlen, Finalizer.tags, hon.handles, hblock, CalendarTree.block, hpaths,
      CalendarTree.length_paths hbuild, List.length_map, List.length_map, List.length_map]
  · intro n
    simp only [List.mem_map, List.mem_filter, decide_eq_true_eq]
    constructor
    · rintro ⟨u, ⟨hu, htag⟩, rfl⟩
      rw [Finalizer.tags, hon.handles, List.map_map] at htag
      obtain ⟨p, hp, hptag⟩ := List.mem_map.1 htag
      exact ⟨u, hsound.mem_handed_of_acked hu, rfl, p, hp, hptag⟩
    · intro hn
      obtain ⟨u, hu, hserial, -, htag, -⟩ := h.acked_of_covers hw hb hn
      exact ⟨u, ⟨hu, hacked ▸ htag⟩, hserial⟩

/-- Before a block is emitted the answers to all its aggregate roots were enqueued. -/
theorem exists_answers (h : Regular c s) {w : Finalizer} (hw : w ∈ s.finalizers) {block : Block}
    (hb : w.block? = some block) :
    ∃ id f tree, CalendarTree.build id f (w.roots.map PendingRoot.message) = .ok tree ∧
      block = tree.block ∧ w.sent.Pairwise (fun j k => j < k) ∧
      ∀ (i : Nat) p, w.roots[i]? = some p → ∃ path k, tree.paths[i]? = some path ∧
        w.sent[i]? = some k ∧ s.ledger.arrived[k]? =
          some (c.queues.stateOut, tree.answer c.calendar.baseUri p.message path) := by
  have hon := h.honest w hw
  obtain ⟨hblock, hcomplete, -⟩ := hon.of_block hb
  obtain ⟨id, f, tree, hbuild, hid, hroot, hpaths⟩ := hon.tree
  have hanswer : w.job.tree.answer = tree.answer := by
    funext baseUri root path
    simp [CalendarTree.answer, CalendarTree.stateMessage, CalendarTree.anchorReference, hid, hroot]
  refine ⟨id, f, tree, hbuild, ?_, hon.holds.increasing, ?_⟩
  · rw [hblock, CalendarTree.block, CalendarTree.block, hid, hroot, hpaths]
  · intro i p hp
    have hlen := CalendarTree.length_paths hbuild
    rw [← hpaths] at hlen
    have hmessage : (w.roots.map PendingRoot.message)[i]? = some p.message := by
      rw [List.getElem?_map, hp]
      rfl
    obtain ⟨path, hpath, hm⟩ := CalendarTree.exists_getElem?_messages hlen c.queues.stateOut
      c.calendar.baseUri hmessage
    rw [← hon.messages] at hm
    obtain ⟨k, hk, harrived⟩ := hon.holds.exists_sent hcomplete hm
    exact ⟨path, k, hpaths ▸ hpath, hk, hanswer ▸ harrived⟩

/-- What a block covers does not wait to be received. -/
theorem serial_ne_of_waiting (h : Regular c s) {w : Finalizer} (hw : w ∈ s.finalizers)
    {block : Block} (hb : w.block? = some block) {n : Nat} (hn : w.Covers s.ledger n)
    {r : Receiver} (hr : s.receiver = some r) {d : Delivery}
    (hd : d ∈ s.broker.waiting r.stream) : d.message.serial ≠ n := by
  obtain ⟨u, hu, hserial, -, -, htag⟩ := h.acked_of_covers hw hb hn
  obtain ⟨v, hv, hvtag, hmessage, -⟩ := (h.feeds.serves r hr).handed d hd
  have hafter := (h.feeds.serves r hr).after _ htag d hd
  intro hdserial
  -- What was acknowledged is the latest delivery, but this one was handed over later.
  have hle := h.latest.latest u (List.mem_append_left _ (List.mem_append_right _ hu)) v hv
    (by rw [hmessage, hdserial, hserial])
  omega

end Regular

/-- A message is covered by a block that was emitted. -/
def Anchored (s : CalendarStation) (n : Nat) : Prop :=
  ∃ w ∈ s.finalizers, ∃ block, w.block? = some block ∧ w.Covers s.ledger n

/-- A message that is covered stays covered. -/
theorem Anchored.actAll {s : CalendarStation} {n : Nat} (h : s.Anchored n) (events : List Event) :
    (s.actAll events).Anchored n := by
  obtain ⟨w, hw, block, hb, u, hu, hcovers⟩ := h
  obtain ⟨k, hk⟩ := List.mem_iff_getElem?.1 hw
  obtain ⟨outcome, hdone⟩ := w.exists_outcome_of_block hb
  exact ⟨w, List.mem_of_getElem? (getElem?_actAll hk hdone events), block, hb, u,
    (s.grows_actAll events).handed.mem hu, hcovers⟩

end CalendarStation

/-- **The blocks of a run.**  In every run of the calendar tier, whatever the others call:

* no two jobs that have emitted a block cover the same message;
* what a block covers are messages of the inbound queue that read as the aggregate roots of its
  tree and were acknowledged, its count is the number of messages that it covers, and the answers
  to all its aggregate roots were enqueued;
* a message that a block covers is never handed over again, and it does not wait to be received. -/
theorem blocks_cover_disjoint_messages (c : Config) (events : List CalendarStation.Event) :
    let s := CalendarStation.run c events
    (∀ (k k' : Nat) w w' block block' n, s.finalizers[k]? = some w →
      s.finalizers[k']? = some w' → w.block? = some block → w'.block? = some block' →
      w.Covers s.ledger n → w'.Covers s.ledger n → k = k') ∧
    (∀ w ∈ s.finalizers, ∀ block, w.block? = some block →
      (∀ p ∈ w.roots, ∃ u ∈ s.ledger.acked, u.tag = p.handle.tag ∧
        u.queue = c.queues.calendarIn ∧
        Inbound.read u.message.content = .ok (.aggregateRoot p.message)) ∧
      (∃ covered : List Nat, covered.Nodup ∧ covered.length = block.aggCount ∧
        ∀ n, n ∈ covered ↔ w.Covers s.ledger n) ∧
      ∃ id f tree, CalendarTree.build id f (w.roots.map PendingRoot.message) = .ok tree ∧
        block = tree.block ∧ w.sent.Pairwise (fun j k => j < k) ∧
        ∀ (i : Nat) p, w.roots[i]? = some p → ∃ path k, tree.paths[i]? = some path ∧
          w.sent[i]? = some k ∧ s.ledger.arrived[k]? =
            some (c.queues.stateOut, tree.answer c.calendar.baseUri p.message path)) ∧
    (∀ n, s.Anchored n → ∀ later,
      (s.actAll later).ledger.handed.filter (fun u => u.message.serial = n) =
        s.ledger.handed.filter (fun u => u.message.serial = n) ∧
      ∀ r, (s.actAll later).receiver = some r →
        ∀ d ∈ (s.actAll later).broker.waiting r.stream, d.message.serial ≠ n) := by
  intro s
  have h : s.Regular c := CalendarStation.regular_run c events
  refine ⟨?_, ?_, ?_⟩
  · intro k k' w w' block block' n hw hw' hb hb' hn hn'
    exact h.eq_of_covers hw hw' hb hb' hn hn'
  · intro w hw block hb
    exact ⟨fun p hp => h.exists_acked hw hb hp, h.exists_covered hw hb, h.exists_answers hw hb⟩
  · intro n hn later
    have hlater : (s.actAll later).Regular c := h.actAll later
    constructor
    · obtain ⟨w, hw, block, hb, hcovers⟩ := hn
      obtain ⟨u, hu, rfl, -⟩ := h.acked_of_covers hw hb hcovers
      exact hlater.latest.filter_handed (s.grows_actAll later) hu
        (h.latest.sound.mem_handed_of_acked hu)
    · intro r hr d hd
      obtain ⟨w, hw, block, hb, hcovers⟩ := hn.actAll later
      exact hlater.serial_ne_of_waiting hw hb hcovers hr hd

/-- An aggregate root over one submission, as it is sent. -/
def loneRoot : Content :=
  ⟨some aggregatorKind,
    (AggregateRoot.toJson ⟨.zero, ⟨List.replicate 32 0, rfl⟩, 1⟩).render⟩

/-- The tier takes in an aggregate root; its connection closes and it takes in the same root again,
builds a tree over each delivery and carries out both jobs. -/
def finalizeTwice : List CalendarStation.Event :=
  [.attempt .nothing, .call (.inject "work.cal" loneRoot), .receive, .ingest 0, .tick .zero,
    .call .closeNow, .closeLink, .attempt .nothing, .receive, .ingest 0, .tick .zero, .finalize,
    .advance 0, .advance 1, .advance 0, .advance 1, .advance 0, .advance 1, .advance 0, .advance 1]

/-- Of two trees over the same aggregate root one becomes a block. -/
theorem lone_root_in_one_block :
    ((CalendarStation.run {} finalizeTwice).finalizers.map fun w =>
        (w.progress, w.block?.map Block.aggCount)) =
      [(.settled (.abandoned 0 1), none), (.settled (.acked 1), some 1)] ∧
    ∀ w ∈ (CalendarStation.run {} finalizeTwice).finalizers, ∀ block, w.block? = some block →
      ∃ covered : List Nat, covered.Nodup ∧ covered.length = block.aggCount ∧
        ∀ n, n ∈ covered ↔ w.Covers (CalendarStation.run {} finalizeTwice).ledger n :=
  ⟨by decide +kernel, fun w hw block hb =>
    ((blocks_cover_disjoint_messages {} finalizeTwice).2.1 w hw block hb).2.1⟩

end HashCalendar
