import Esp32Utils.WebserverRuns

/-! # What the registering loop leaves

The loop of a start as a function on the table of the server, and when it gets through. -/
namespace RegistrationLoop

open InteractionProgram Httpd HttpWebserver WebserverRuns

/-- Register one handler after the other, up to the first that is rejected. -/
def registerAll (server : Server) : List HttpdUri → EspErr × Server
  | [] => (espOk, server)
  | u :: us =>
    if (server.registerUri u).1 = espOk then registerAll (server.registerUri u).2 us
    else server.registerUri u

variable {server : Server} {u v : HttpdUri} {us vs : List HttpdUri} {config : HttpdConfig}
  {s : Servers} {k : HttpdHandle} {outcome : EspErr} {σ : State}

theorem registerUri_ok_iff : (server.registerUri u).1 = espOk ↔
    u.key ∉ server.uriHandlers.map HttpdUri.key ∧
      server.uriHandlers.length < server.maxUriHandlers := by
  constructor
  · intro h
    by_cases hmem : u.key ∈ server.uriHandlers.map HttpdUri.key
    · simp [Server.registerUri, hmem] at h
    · by_cases hroom : server.uriHandlers.length < server.maxUriHandlers
      · exact ⟨hmem, hroom⟩
      · simp [Server.registerUri, hmem, hroom] at h
  · intro h
    rw [Server.registerUri_ok h.1 h.2]

theorem registerUri_rejected (h : (server.registerUri u).1 ≠ espOk) :
    (server.registerUri u).2 = server := by
  unfold Server.registerUri at h ⊢
  split
  · rfl
  · split
    · rename_i hmem hroom
      simp [hmem, hroom] at h
    · rfl

theorem registerAll_cons_ok (hok : (server.registerUri u).1 = espOk) :
    registerAll server (u :: us) =
      registerAll { server with uriHandlers := server.uriHandlers ++ [u] } us := by
  obtain ⟨hfresh, hroom⟩ := registerUri_ok_iff.mp hok
  rw [registerAll, if_pos hok, Server.registerUri_ok hfresh hroom]

theorem registerAll_cons_error (hne : (server.registerUri u).1 ≠ espOk) :
    registerAll server (u :: us) = ((server.registerUri u).1, server) := by
  rw [registerAll, if_neg hne, Prod.ext_iff]
  exact ⟨rfl, registerUri_rejected hne⟩

theorem run_registerEach_eq (hs : s.live k = some server) :
    (registerEach (some k) us espOk).run (httpd outcome) s =
      ((registerAll server us).1, s.put k (some (registerAll server us).2)) := by
  induction us generalizing s server with
  | nil => simp only [registerEach, pure_eq_ret, run_ret, registerAll, Servers.put_self hs]
  | cons u us ih =>
    have hcall : httpd outcome (.httpdRegisterUriHandler (some k) u) s =
        ((server.registerUri u).1, s.put k (some (server.registerUri u).2)) :=
      Servers.on_live hs
    by_cases hok : (server.registerUri u).1 = espOk
    · rw [run_registerEach_ok (by rw [hcall]; exact hok), hcall, ih (Servers.put_live_self _ _ _),
        Servers.put_put, registerAll, if_pos hok]
    · rw [run_registerEach_error (by rw [hcall]; exact hok), hcall, registerAll, if_neg hok]

theorem registerAll_append_ok (h : (registerAll server us).1 = espOk) :
    registerAll server (us ++ vs) = registerAll (registerAll server us).2 vs := by
  induction us generalizing server with
  | nil => rfl
  | cons u us ih =>
    by_cases hok : (server.registerUri u).1 = espOk
    · rw [registerAll_cons_ok hok] at h ⊢
      rw [List.cons_append, registerAll_cons_ok hok, ih h]
    · rw [registerAll_cons_error hok] at h
      exact absurd h hok

theorem registerAll_append_error (h : (registerAll server us).1 ≠ espOk) :
    registerAll server (us ++ vs) = registerAll server us := by
  induction us generalizing server with
  | nil => exact absurd rfl h
  | cons u us ih =>
    by_cases hok : (server.registerUri u).1 = espOk
    · rw [registerAll_cons_ok hok] at h ⊢
      rw [List.cons_append, registerAll_cons_ok hok, ih h]
    · rw [List.cons_append, registerAll_cons_error hok, registerAll_cons_error hok]

theorem mem_registerAll (h : v ∈ server.uriHandlers) :
    v ∈ (registerAll server us).2.uriHandlers := by
  induction us generalizing server with
  | nil => exact h
  | cons u us ih =>
    by_cases hok : (server.registerUri u).1 = espOk
    · rw [registerAll_cons_ok hok]
      exact ih (List.mem_append_left _ h)
    · rw [registerAll_cons_error hok]
      exact h

/-- The loop gets through distinct routes within the limit, and through no others. -/
theorem registerAll_ok_iff (hnodup : (server.uriHandlers.map HttpdUri.key).Nodup)
    (hroom : server.uriHandlers.length ≤ server.maxUriHandlers) :
    (registerAll server us).1 = espOk ↔
      ((server.uriHandlers ++ us).map HttpdUri.key).Nodup ∧
        (server.uriHandlers ++ us).length ≤ server.maxUriHandlers := by
  induction us generalizing server with
  | nil => simp [registerAll, hnodup, hroom]
  | cons u us ih =>
    have hsplit : server.uriHandlers ++ u :: us = (server.uriHandlers ++ [u]) ++ us := by simp
    by_cases hok : (server.registerUri u).1 = espOk
    · obtain ⟨hfresh, hlt⟩ := registerUri_ok_iff.mp hok
      rw [registerAll_cons_ok hok, hsplit]
      apply ih
      · rw [List.map_append, List.nodup_append]
        refine ⟨hnodup, List.nodup_singleton _, fun a ha b hb => ?_⟩
        obtain rfl := List.mem_singleton.mp hb
        exact ne_of_mem_of_not_mem ha hfresh
      · rw [List.length_append, List.length_singleton]
        exact hlt
    · rw [registerAll_cons_error hok]
      refine iff_of_false hok fun h => hok ?_
      rw [registerUri_ok_iff]
      obtain ⟨hall, hlength⟩ := h
      rw [List.map_append, List.nodup_append] at hall
      rw [List.length_append, List.length_cons] at hlength
      exact ⟨fun hmem => hall.2.2 _ hmem _ List.mem_cons_self rfl, by omega⟩

def emptyServer (config : HttpdConfig) : Server := ⟨config.maxUriHandlers, [], fun _ => none⟩

theorem registerAll_empty_ok_iff :
    (registerAll (emptyServer config) us).1 = espOk ↔ Acceptable config us :=
  registerAll_ok_iff List.nodup_nil (Nat.zero_le _)

theorem registerAll_table (h : (registerAll server us).1 = espOk) :
    (registerAll server us).2 = { server with uriHandlers := server.uriHandlers ++ us } := by
  induction us generalizing server with
  | nil => simp [registerAll]
  | cons u us ih =>
    by_cases hok : (server.registerUri u).1 = espOk
    · rw [registerAll_cons_ok hok] at h ⊢
      rw [ih h, List.append_assoc, List.singleton_append]
    · rw [registerAll_cons_error hok] at h
      exact absurd h hok

theorem step_start_none_eq : step σ (.start none) =
    ((registerAll (emptyServer σ.object.config) σ.object.handlers).1,
      ⟨{ σ.object with server := some σ.servers.started },
        σ.servers.launch
          (registerAll (emptyServer σ.object.config) σ.object.handlers).2⟩) := by
  have hfresh : (freshServer σ).live σ.servers.started = some (emptyServer σ.object.config) :=
    Servers.launch_live_self _ _
  rw [step_start_none, run_registerEach_eq hfresh, freshServer, Servers.launch_put]

end RegistrationLoop
