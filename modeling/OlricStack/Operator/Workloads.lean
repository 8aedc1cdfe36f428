import Mathlib.Data.Int.Notation
import OlricStack.Lib.ApiServer

/-!
# The objects of a stack

`internal/workloads`: what the operator and the watchdog want to stand in the cluster for an
`OlricStack` (`Controller.resources`).  The key of an object says who asks for it
(`key_of_mem_desired`), for the names of two stacks, or of the operator and the watchdog of one, are
different (`suffix_inj`).
-/

namespace OlricStack.Operator

/-- Labels, annotations or a selector, as pairs of a key and a value. -/
abbrev Labels := List (String × String)

/-- `corev1.ResourceRequirements`, with the quantities as text. -/
structure Resources where
  limits : Labels
  requests : Labels
deriving DecidableEq

/-- `corev1.SecretKeySelector`. -/
structure SecretKeySelector where
  name : String
  key : String
deriving DecidableEq

/-- `OlricStackSpec` -/
structure Spec where
  replicas : Option ℤ
  watchdogReplicas : Option ℤ
  image : String
  sidecarImage : String
  watchdogImage : String
  mySQLDSNSecret : SecretKeySelector
  resources : Resources
deriving DecidableEq

/-- What `OlricStackStatus` is set to. -/
structure Status where
  readyReplicas : ℕ
  podIPs : List String
deriving DecidableEq

/-- Name, namespace and uid of a stack. -/
structure StackRef where
  nameSpace : String
  name : String
  uid : ℕ
deriving DecidableEq

/-- `OlricStack`, without its status -/
structure Stack extends StackRef where
  spec : Spec
deriving DecidableEq

/-! ## Objects -/

/-- `metav1.ObjectMeta`, as far as the workloads set it. -/
structure ObjectMeta where
  name : String
  nameSpace : String
  labels : Labels
  annotations : Labels
  /-- the controller among the owner references -/
  controller : Option StackRef
deriving DecidableEq

/-- `corev1.ServicePort`. -/
structure ServicePort where
  name : String
  port : ℕ
  targetPort : ℕ
deriving DecidableEq

/-- `corev1.Service`. -/
structure Service where
  objectMeta : ObjectMeta
  selector : Labels
  ports : List ServicePort
  clusterIP : String
  clusterIPs : List String
  ipFamilies : List String
  ipFamilyPolicy : Option String
deriving DecidableEq

/-- `corev1.ServiceAccount`. -/
structure ServiceAccount where
  objectMeta : ObjectMeta
deriving DecidableEq

/-- `rbacv1.RoleRef`. -/
structure RoleRef where
  apiGroup : String
  kind : String
  name : String
deriving DecidableEq

/-- `rbacv1.Subject`. -/
structure Subject where
  kind : String
  name : String
  nameSpace : String
deriving DecidableEq

/-- `rbacv1.RoleBinding`. -/
structure RoleBinding where
  objectMeta : ObjectMeta
  roleRef : RoleRef
  subjects : List Subject
deriving DecidableEq

/-- Where the value of an environment variable comes from. -/
inductive EnvValue
  | value (s : String)
  | fieldRef (path : String)
  | secretKeyRef (secret : SecretKeySelector)
deriving DecidableEq

/-- `corev1.EnvVar`. -/
structure EnvVar where
  name : String
  value : EnvValue
deriving DecidableEq

/-- A readiness probe over gRPC. -/
structure Probe where
  port : ℕ
  periodSeconds : ℕ
  failureThreshold : ℕ
deriving DecidableEq

/-- `corev1.Container`. -/
structure Container where
  name : String
  image : String
  resources : Resources
  ports : List (String × ℕ)
  readinessProbe : Option Probe
  volumeMounts : List (String × String)
  env : List EnvVar
deriving DecidableEq

/-- A volume of kind `emptyDir`. -/
structure Volume where
  name : String
  medium : String
  sizeLimit : String
deriving DecidableEq

/-- `corev1.PodTemplateSpec`. -/
structure PodTemplate where
  labels : Labels
  serviceAccountName : String
  volumes : List Volume
  containers : List Container
deriving DecidableEq

/-- `appsv1.Deployment`, which is rolled out with the two limits. -/
structure Deployment where
  objectMeta : ObjectMeta
  replicas : ℤ
  maxUnavailable : ℕ
  maxSurge : ℕ
  selector : Labels
  template : PodTemplate
deriving DecidableEq

/-- An object that a controller applies. -/
inductive Object
  | service (s : Service)
  | serviceAccount (a : ServiceAccount)
  | roleBinding (b : RoleBinding)
  | deployment (d : Deployment)
deriving DecidableEq

/-- The kinds of the objects. -/
inductive Kind
  | service | serviceAccount | roleBinding | deployment
deriving DecidableEq

/-- Where the server keeps an object. -/
structure ObjectKey where
  kind : Kind
  nameSpace : String
  name : String
deriving DecidableEq

namespace Object

/-- The kind of an object. -/
def kind : Object → Kind
  | service _ => .service
  | serviceAccount _ => .serviceAccount
  | roleBinding _ => .roleBinding
  | deployment _ => .deployment

/-- The metadata that all kinds have. -/
def objectMeta : Object → ObjectMeta
  | service s => s.objectMeta
  | serviceAccount a => a.objectMeta
  | roleBinding b => b.objectMeta
  | deployment d => d.objectMeta

/-- The key of an object. -/
def key (o : Object) : ObjectKey := ⟨o.kind, o.objectMeta.nameSpace, o.objectMeta.name⟩

/-- `controllerutil.SetControllerReference` on an object without owners. -/
def setControllerReference (owner : StackRef) : Object → Object
  | service s => service { s with objectMeta := { s.objectMeta with controller := some owner } }
  | serviceAccount a =>
    serviceAccount { a with objectMeta := { a.objectMeta with controller := some owner } }
  | roleBinding b =>
    roleBinding { b with objectMeta := { b.objectMeta with controller := some owner } }
  | deployment d =>
    deployment { d with objectMeta := { d.objectMeta with controller := some owner } }

@[simp] theorem key_setControllerReference (owner : StackRef) (o : Object) :
    (o.setControllerReference owner).key = o.key := by
  cases o <;> rfl

end Object

/-! ## Workloads -/

/-- The label that has the name of the stack. -/
def labelStackID : String := "olric.io/stack-id"

/-- The label that tells nodes from watchdogs. -/
def labelComponent : String := "app.kubernetes.io/component"

/-- The component of the nodes. -/
def componentOlricNode : String := "olric-node"

/-- The component of the watchdogs. -/
def componentWatchdog : String := "watchdog"

/-- The image of a node when the stack names none. -/
def defaultNodeImage : String := "olricstack/olric-node:latest"

/-- The image of a sidecar when the stack names none. -/
def defaultSidecarImage : String := "olricstack/olric-sidecar:latest"

/-- The image of a watchdog when the stack names none. -/
def defaultWatchdogImage : String := "olricstack/watchdog:latest"

/-- The port of the watchdog's gRPC server. -/
def watchdogPort : ℕ := 8081

/-- The port on which the nodes talk to each other. -/
def olricPort : ℕ := 3320

/-- The port for clients. -/
def respPort : ℕ := 3321

/-- The port of memberlist. -/
def memberlistPort : ℕ := 3322

/-- The volume that a node shares with its sidecar. -/
def sharedVolumeName : String := "olric-shared"

/-- Where both containers mount it. -/
def sharedMountPath : String := "/var/lib/olricstack/shared"

/-- The memory limit of the shared volume. -/
def sharedMemoryLimit : String := "256Mi"

/-- The cluster role of the watchdogs. -/
def watchdogClusterRoleName : String := "olricstack-watchdog"

/-- The annotation that says who may use a service. -/
def annotationServiceScope : String := "olric.io/service-scope"

/-- Its value for services that are not meant for clients outside of the cluster. -/
def serviceScopeInternal : String := "internal-cluster-only"

/-- An empty setting stands for its default. -/
def valueOrDefault (value fallback : String) : String := if value = "" then fallback else value

section

variable (stack : Stack)

/-- The labels of the objects of a component, which are its selector as well. -/
def stackLabels (component : String) : Labels :=
  [("app.kubernetes.io/name", "olricstack"), ("app.kubernetes.io/instance", stack.name),
    (labelStackID, stack.name), (labelComponent, component)]

/-- `WatchdogName`. -/
def watchdogName : String := stack.name ++ "-watchdog"

/-- `OlricName`. -/
def olricName : String := stack.name ++ "-olric"

/-- `WatchdogServiceAccountName`. -/
def watchdogServiceAccountName : String := watchdogName stack

/-- What the watchdog's objects have in common. -/
def watchdogMeta : ObjectMeta where
  name := watchdogName stack
  nameSpace := stack.nameSpace
  labels := stackLabels stack componentWatchdog
  annotations := []
  controller := none

/-- `WatchdogService`. -/
def watchdogService : Service where
  objectMeta := watchdogMeta stack
  selector := stackLabels stack componentWatchdog
  ports := [⟨"grpc", watchdogPort, watchdogPort⟩]
  clusterIP := ""
  clusterIPs := []
  ipFamilies := []
  ipFamilyPolicy := none

/-- No limits and no requests. -/
def noResources : Resources := ⟨[], []⟩

/-- An environment variable with a fixed value. -/
def text (name value : String) : EnvVar := ⟨name, .value value⟩

/-- `WatchdogDeployment`; without a number there are two replicas. -/
def watchdogDeployment : Deployment where
  objectMeta := watchdogMeta stack
  replicas := stack.spec.watchdogReplicas.getD 2
  maxUnavailable := 1
  maxSurge := 1
  selector := stackLabels stack componentWatchdog
  template := {
    labels := stackLabels stack componentWatchdog
    serviceAccountName := watchdogServiceAccountName stack
    volumes := []
    containers := [{
      name := "watchdog"
      image := valueOrDefault stack.spec.watchdogImage defaultWatchdogImage
      resources := noResources
      ports := [("grpc", watchdogPort)]
      readinessProbe := some ⟨watchdogPort, 2, 1⟩
      volumeMounts := []
      env := [text "WATCHDOG_ADDR" (":" ++ toString watchdogPort), text "STACK_ID" stack.name,
        text "STACK_NAMESPACE" stack.nameSpace, text "SUSPECT_AFTER" "20s",
        text "EXPIRE_AFTER" "30s", text "REAP_INTERVAL" "15s", text "BOOKWORM_INTERVAL" "10s",
        text "TOPOLOGY_LEASE_TTL" "30s", text "WATCHDOG_ROLE" "primary",
        text "WATCHDOG_RECONCILE_INTERVAL" "10s"] }] }

/-- `WatchdogServiceAccount`. -/
def watchdogServiceAccount : ServiceAccount where
  objectMeta := watchdogMeta stack

/-- `WatchdogRoleBinding`. -/
def watchdogRoleBinding : RoleBinding where
  objectMeta := watchdogMeta stack
  roleRef := ⟨"rbac.authorization.k8s.io", "ClusterRole", watchdogClusterRoleName⟩
  subjects := [⟨"ServiceAccount", watchdogServiceAccountName stack, stack.nameSpace⟩]

/-- `OlricService`. -/
def olricService : Service where
  objectMeta := {
    name := olricName stack
    nameSpace := stack.nameSpace
    labels := stackLabels stack componentOlricNode
    annotations := [(annotationServiceScope, serviceScopeInternal)]
    controller := none }
  selector := stackLabels stack componentOlricNode
  ports := [⟨"resp", respPort, respPort⟩]
  clusterIP := ""
  clusterIPs := []
  ipFamilies := []
  ipFamilyPolicy := none

/-- Where node and sidecar find the ring and the control socket. -/
def ringEnv : List EnvVar :=
  [text "RING_PATH" (sharedMountPath ++ "/oplog.ring"),
    text "CONTROL_SOCKET" (sharedMountPath ++ "/oplog.sock")]

/-- The container of the node. -/
def nodeContainer : Container where
  name := "olric-node"
  image := valueOrDefault stack.spec.image defaultNodeImage
  resources := stack.spec.resources
  ports := [("olric-internal", olricPort), ("resp", respPort), ("memberlist", memberlistPort)]
  readinessProbe := none
  volumeMounts := [(sharedVolumeName, sharedMountPath)]
  env := [text "STACK_ID" stack.name,
    text "WATCHDOG_SVC_NAME" (watchdogName stack ++ "." ++ stack.nameSpace ++
      ".svc.cluster.local:" ++ toString watchdogPort),
    text "HEARTBEAT_INTERVAL" "10s", text "WATCHDOG_RECONNECT_INTERVAL" "3s",
    text "OLRIC_BIND_ADDR" "0.0.0.0", text "OLRIC_BIND_PORT" (toString olricPort),
    text "RESP_BIND_ADDR" "0.0.0.0", text "RESP_BIND_PORT" (toString respPort),
    text "OLRIC_MEMBERLIST_BIND_ADDR" "0.0.0.0",
    text "OLRIC_MEMBERLIST_BIND_PORT" (toString memberlistPort),
    text "OLRIC_MEMBERLIST_ENV" "lan"] ++ ringEnv ++
    [⟨"POD_NAME", .fieldRef "metadata.name"⟩, ⟨"POD_IP", .fieldRef "status.podIP"⟩]

/-- The container of the sidecar. -/
def sidecarContainer : Container where
  name := "olric-sidecar"
  image := valueOrDefault stack.spec.sidecarImage defaultSidecarImage
  resources := noResources
  ports := []
  readinessProbe := none
  volumeMounts := [(sharedVolumeName, sharedMountPath)]
  env := [text "STACK_ID" stack.name, ⟨"MYSQL_DSN", .secretKeyRef stack.spec.mySQLDSNSecret⟩] ++
    ringEnv ++ [text "RING_CAPACITY_BYTES" "16777216", ⟨"POD_NAME", .fieldRef "metadata.name"⟩]

/-- `OlricDeployment`. -/
def olricDeployment : Deployment where
  objectMeta := {
    name := olricName stack
    nameSpace := stack.nameSpace
    labels := stackLabels stack componentOlricNode
    annotations := []
    controller := none }
  replicas := stack.spec.replicas.getD 3
  maxUnavailable := 1
  maxSurge := 1
  selector := stackLabels stack componentOlricNode
  template := {
    labels := stackLabels stack componentOlricNode
    serviceAccountName := ""
    volumes := [⟨sharedVolumeName, "Memory", sharedMemoryLimit⟩]
    containers := [nodeContainer stack, sidecarContainer stack] }

end

/-! ## Who wants what -/

/-- `OlricStackReconciler`, and the `Controller` of the watchdog. -/
inductive Controller
  | operator
  | watchdog
deriving DecidableEq

/-- The list of resources of `Reconcile`, in its order. -/
def Controller.resources (stack : Stack) : Controller → List Object
  | operator =>
    [.service (watchdogService stack), .serviceAccount (watchdogServiceAccount stack),
      .roleBinding (watchdogRoleBinding stack), .deployment (watchdogDeployment stack)]
  | watchdog => [.service (olricService stack), .deployment (olricDeployment stack)]

/-- What is sent for it. -/
def Controller.desired (c : Controller) (stack : Stack) : List Object :=
  (c.resources stack).map fun o => o.setControllerReference stack.toStackRef

/-- The name of all objects of a controller. -/
def Controller.suffix : Controller → String
  | operator => "-watchdog"
  | watchdog => "-olric"

theorem key_of_mem_desired {c : Controller} {stack : Stack} {o : Object}
    (mem : o ∈ c.desired stack) :
    o.key.nameSpace = stack.nameSpace ∧ o.key.name = stack.name ++ c.suffix := by
  obtain ⟨resource, listed, rfl⟩ := List.mem_map.1 mem
  rw [Object.key_setControllerReference]
  cases c with
  | operator =>
    simp only [Controller.resources, List.mem_cons, List.not_mem_nil, or_false] at listed
    rcases listed with rfl | rfl | rfl | rfl <;> exact ⟨rfl, rfl⟩
  | watchdog =>
    simp only [Controller.resources, List.mem_cons, List.not_mem_nil, or_false] at listed
    rcases listed with rfl | rfl <;> exact ⟨rfl, rfl⟩

/-- The names of two controllers or of two stacks are different. -/
theorem suffix_inj {c c' : Controller} {n n' : String} (same : n ++ c.suffix = n' ++ c'.suffix) :
    n = n' ∧ c = c' := by
  have lists : n.toList ++ c.suffix.toList = n'.toList ++ c'.suffix.toList := by
    simpa using congrArg String.toList same
  have last := congrArg List.getLast? lists
  cases c <;> cases c' <;> simp [Controller.suffix] at lists last
  · exact ⟨String.toList_injective lists, rfl⟩
  · exact ⟨String.toList_injective lists, rfl⟩

end OlricStack.Operator
