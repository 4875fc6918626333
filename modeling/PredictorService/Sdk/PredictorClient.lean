/-
  PredictorService.Sdk.PredictorClient — the client library
  (sdk/predictor/predictor_client_sdk.h, predictor_sdk_util.h, predictor_sdk_thrift_api.cc,
  predictor_sdk_universal_api.cc).

  There are two APIs. The thrift one takes the requests of the interface as they are. The
  universal one has requests, responses and options of its own, and translates. Each call is
  one RPC through `thriftServiceCall` (`PredictorService.Sdk.ServiceCall`): a `Wire` says
  what each attempt comes to, for the discovery option and the request it is made with.

  A synchronous call writes to a list it is given, an asynchronous one leaves a future. What
  a call returns comes with that list or future, and an exception without: nothing has been
  written then. The call itself is `none` while it has not ended after `fuel` attempts.
  Doubles are a type parameter. Meters and logs are left out.
-/

import PredictorService.Lib.Emplace
import PredictorService.Sdk.ServiceCall
import PredictorService.Server.Service

namespace PredictorService.Sdk

open Std (ExtTreeMap)
open PredictorService.FeatureMaster
open PredictorService.Lib (emplaceAll insertAll)
open PredictorService.Server
open PredictorService.ServiceRouter

variable {Dbl V : Type}

/-! ## Options -/

structure PredictorClientOption where
  localIp : String := ""
  connectionTimeout : Int32 := 40
  requestTimeout : Int32 := 60
  ipDiffRange : Int32 := 65535
  maxConnPerServer : Int32 := 3
  predictorServiceName : String := "algo_service"
  httpPort : Int32 := 8797
  predictorLoadBalanceMethod : String := "random"
  usePredictorStaticList : Bool := false
  serverIp : String := ""
  serverPort : Int32 := 0
  deriving DecidableEq, Repr

/-- `ClientOption` with the members that the connection reads. -/
structure CallOption where
  client : ClientOption
  timeoutMs : Int32
  maxConnPerServer : Int32
  deriving DecidableEq, Repr

def stringToLoadBalanceMethod (name : String) : Option LoadBalanceMethod :=
  [LoadBalanceMethod.random, .roundrobin, .localfirst, .consistent, .configurableWeight, .activeWeight, .userDefined,
    .iprangefirst, .staticWeight, .idcfirst].find? fun method => toStringLoadBalanceMethod method = name

/-- An unknown method is logged and becomes the default one. -/
def makeServiceRouterClientOption (rhs : RequestOption) : CallOption where
  client :=
    { serviceName :=
        if rhs.usePredictorStaticList then rhs.predictorServiceName ++ "_static" else rhs.predictorServiceName
      protocol := .thrift
      loadBalance := (stringToLoadBalanceMethod rhs.predictorLoadBalanceMethod).getD .random
      localFirstConfig := { localIp := rhs.localIp, diffRange := rhs.ipDiffRange } }
  timeoutMs := rhs.connectionTimeout
  maxConnPerServer := rhs.maxConnPerServer

def makeRequestOption (option : PredictorClientOption) : RequestOption where
  localIp := option.localIp
  connectionTimeout := option.connectionTimeout
  requestTimeout := option.requestTimeout
  ipDiffRange := option.ipDiffRange
  maxConnPerServer := option.maxConnPerServer
  predictorServiceName := option.predictorServiceName
  httpPort := option.httpPort
  predictorLoadBalanceMethod := option.predictorLoadBalanceMethod
  usePredictorStaticList := option.usePredictorStaticList

/-- The overload for the universal API's options; the port is cut to 16 bits. -/
def makeClientCallOption (rhs : PredictorClientOption) : CallOption where
  client :=
    { serviceName :=
        if rhs.usePredictorStaticList then rhs.predictorServiceName ++ "_static" else rhs.predictorServiceName
      protocol := .thrift
      loadBalance := (stringToLoadBalanceMethod rhs.predictorLoadBalanceMethod).getD .random
      localFirstConfig := { localIp := rhs.localIp, diffRange := rhs.ipDiffRange }
      targetServerAddress := { host := rhs.serverIp, port := rhs.serverPort.toUInt32.toUInt16 } }
  timeoutMs := rhs.connectionTimeout
  maxConnPerServer := rhs.maxConnPerServer

/-! ## Features -/

/-- The enumerators have the numbers of the thrift ones. -/
structure PredictFeature (Dbl : Type) where
  featureName : String
  featureType : FeatureType
  stringValues : List String := []
  floatValues : List Dbl := []
  int64Values : List Int64 := []
  deriving DecidableEq, Repr

/-- Only the list of the feature's type goes over. -/
def featureParse (feature : PredictFeature Dbl) : Feature Dbl :=
  let masterFeature : Feature Dbl := { featureName := feature.featureName, featureType := feature.featureType }
  match feature.featureType with
  | .int64List => { masterFeature with int64Values := feature.int64Values }
  | .floatList => { masterFeature with floatValues := feature.floatValues }
  | .stringList => { masterFeature with stringValues := feature.stringValues }
  | .other _ => masterFeature

/-- The values of `client_util`'s overloads; a single value is a list of one. -/
inductive FeatureValues (Dbl : Type) where
  | int64s (values : List Int64)
  | floats (values : List Dbl)
  | strings (values : List String)

/-- `client_util::parse`. -/
def parse (name : String) : FeatureValues Dbl → PredictFeature Dbl
  | .int64s values => { featureName := name, featureType := .int64List, int64Values := values }
  | .floats values => { featureName := name, featureType := .floatList, floatValues := values }
  | .strings values => { featureName := name, featureType := .stringList, stringValues := values }

/-! ## Requests and responses -/

structure PredictClientRequest (Dbl : Type) where
  reqId : String := ""
  channel : String := ""
  modelName : String := ""
  commonFeature : List (PredictFeature Dbl) := []
  itemFeatures : ExtTreeMap Int64 (List (PredictFeature Dbl)) := ∅

def PredictClientRequest.toPredictRequest (r : PredictClientRequest Dbl) : PredictRequest (Features Dbl) where
  reqId := r.reqId
  modelName := r.modelName
  channel := r.channel
  commonFeatures := r.commonFeature.map featureParse
  itemFeatures := insertAll ∅ (r.itemFeatures.toList.map fun item => (item.1, item.2.map featureParse))

structure PredictClientResponse (Dbl : Type) where
  reqId : String := ""
  itemResults : ExtTreeMap Int64 Dbl := ∅
  correctedCtrMap : ExtTreeMap Int64 Dbl := ∅
  deriving DecidableEq

/-- One round of the inner loop. `preds["ctr"]` of a copy makes a missing entry, zero. -/
def packResult [Zero Dbl] (clientResponse : PredictClientResponse Dbl) (result : Int64 × PredictResults Dbl) :
    PredictClientResponse Dbl :=
  { clientResponse with
    itemResults := clientResponse.itemResults.insert result.1 (result.2.preds["ctr"]?.getD 0)
    correctedCtrMap :=
      match result.2.preds["corrected_ctr"]? with
      | some corrected => clientResponse.correctedCtrMap.insert result.1 corrected
      | none => clientResponse.correctedCtrMap }

def packClientResponse [Zero Dbl] (response : PredictResponse (PredictResults Dbl)) : PredictClientResponse Dbl :=
  response.resultsMap.toList.foldl packResult { reqId := response.reqId }

/-- The list is `none` where the pointer is null. -/
def packClientResponses [Zero Dbl] (clientResponseList : Option (List (PredictClientResponse Dbl)))
    (responses : List (PredictResponse (PredictResults Dbl))) : Option (List (PredictClientResponse Dbl)) :=
  clientResponseList.map fun l => responses.foldl (fun l response => l ++ [packClientResponse response]) l

structure CalculateVectorClientRequest (Dbl : Type) where
  reqId : String := ""
  channel : String := ""
  modelName : String := ""
  features : List (PredictFeature Dbl) := []
  outputNames : List String := []

def CalculateVectorClientRequest.toCalculateVectorRequest (r : CalculateVectorClientRequest Dbl) :
    CalculateVectorRequest (Features Dbl) where
  reqId := r.reqId
  modelName := r.modelName
  channel := r.channel
  outputNames := r.outputNames
  features := r.features.map featureParse

structure CalculateBatchVectorClientRequest (Dbl : Type) where
  reqId : String := ""
  channel : String := ""
  modelName : String := ""
  featureMap : ExtTreeMap Int64 (List (PredictFeature Dbl)) := ∅
  outputNames : List String := []

def CalculateBatchVectorClientRequest.toCalculateBatchVectorRequest (r : CalculateBatchVectorClientRequest Dbl) :
    CalculateBatchVectorRequest (Features Dbl) where
  reqId := r.reqId
  modelName := r.modelName
  channel := r.channel
  outputNames := r.outputNames
  featuresMap := emplaceAll ∅ (r.featureMap.toList.map fun item => (item.1, item.2.map featureParse))

/-- `CalculateVectorClientResponse` and `CalculateBatchVectorClientResponse`: `M` is their
    vector map. -/
structure VectorClientResponse (M : Type) where
  reqId : String := ""
  modelTimestamp : String := ""
  vectorMap : M
  returnCode : Int32 := 0
  deriving DecidableEq

/-- `packCalculaterClientResponses` for the one response type. A return code that the server
    did not set reads as 0. -/
def packVectorResponse (response : CalculateVectorResponse V) : VectorClientResponse (ExtTreeMap String V) where
  returnCode := response.returnCode.getD 0
  modelTimestamp := response.modelTimestamp
  reqId := response.reqId
  vectorMap := response.vectorMap

/-- And for the other one. -/
def packBatchVectorResponse (response : CalculateBatchVectorResponse V) :
    VectorClientResponse (ExtTreeMap Int64 (ExtTreeMap String V)) where
  returnCode := response.returnCode.getD 0
  modelTimestamp := response.modelTimestamp
  reqId := response.reqId
  vectorMap := response.vectorMap

/-! ## Calls -/

/-- What an RPC is made with. -/
structure RpcCall (Q : Type) where
  option : CallOption
  requestTimeout : Int32
  request : Q
  deriving DecidableEq

/-- What each attempt of a call comes to. -/
abbrev Wire (Q A : Type) := Nat → RpcCall Q → Attempt A

variable (retry : ThriftRetryOption)

/-- `thriftServiceCall` with this RPC. -/
def rpc {Q A : Type} (wire : Wire Q A) (fuel : Nat) (c : RpcCall Q) : Option (Called (Option A)) :=
  call retry (fun i => wire i c) fuel

/-- What the universal API's `predict` and `future_predict` send. -/
def predictCall (clientRequestList : List (PredictClientRequest Dbl)) (option : PredictorClientOption) :
    RpcCall (PredictRequests (Features Dbl)) where
  option := makeClientCallOption option
  requestTimeout := option.requestTimeout
  request := { reqs := clientRequestList.map (·.toPredictRequest), requestOption := makeRequestOption option }

/-- What the thrift API sends for requests that carry their option. -/
def thriftCall {Q : Type} (requestOption : RequestOption) (request : Q) : RpcCall Q where
  option := makeServiceRouterClientOption requestOption
  requestTimeout := requestOption.requestTimeout
  request

/-- The universal API's. An empty answer is logged and counts as a success. -/
def predict [Zero Dbl] (wire : Wire (PredictRequests (Features Dbl)) (PredictResponses (PredictResults Dbl)))
    (fuel : Nat) (clientResponseList : Option (List (PredictClientResponse Dbl)))
    (clientRequestList : List (PredictClientRequest Dbl)) (option : PredictorClientOption) :
    Option (Called (Bool × Option (List (PredictClientResponse Dbl)))) :=
  (rpc retry wire fuel (predictCall clientRequestList option)).map (·.map fun
    | none => (false, clientResponseList)
    | some responses =>
      (true,
        if responses.resps.isEmpty then clientResponseList
        else packClientResponses clientResponseList responses.resps))

/-- A future with what its meters are marked for. -/
structure ResponsesFuture (A : Type) where
  fut : Future A
  reqIds : String
  channelModelNames : List (String × String)
  serviceName : String

/-- The caller's future is `none` where nothing was written to it. -/
def futurePredict (wire : Wire (PredictRequests (Features Dbl)) (Future (PredictResponses (PredictResults Dbl))))
    (fuel : Nat) (clientRequestList : List (PredictClientRequest Dbl)) (option : PredictorClientOption) :
    Option (Called (Bool × Option (ResponsesFuture (PredictResponses (PredictResults Dbl))))) :=
  (rpc retry wire fuel (predictCall clientRequestList option)).map (·.map fun
    | none => (false, none)
    | some fut =>
      (true, some
        { fut
          -- here every id has a blank behind it
          reqIds := String.join (clientRequestList.map (·.reqId ++ " "))
          channelModelNames := clientRequestList.map fun r => (r.channel, r.modelName)
          serviceName := option.predictorServiceName }))

/-- `PredictResponsesFutureImpl::get`. -/
def ResponsesFuture.get [Zero Dbl] (f : ResponsesFuture (PredictResponses (PredictResults Dbl))) :
    List (PredictClientResponse Dbl) :=
  match f.fut with
  | .error _ => []
  | .ok responses => if responses.resps.isEmpty then [] else (packClientResponses (some []) responses.resps).getD []

def multiPredict (wire : Wire (MultiPredictRequest (Features Dbl)) (MultiPredictResponse (PredictResults Dbl)))
    (fuel : Nat) (response : MultiPredictResponse (PredictResults Dbl)) (request : MultiPredictRequest (Features Dbl)) :
    Option (Called (Bool × MultiPredictResponse (PredictResults Dbl))) :=
  (rpc retry wire fuel (thriftCall request.requestOption request)).map (·.map fun
    | none => (false, response)
    | some answer => (true, answer))

structure MultiPredictResponseFuture (R : Type) where
  fut : Future (MultiPredictResponse R)
  reqId : String
  modelNames : List String
  channel : String
  serviceName : String
  requestType : String

def getRequestType (context : Option Context) : String := (context.bind (·["request_type"]?)).getD "predict"

def futureMultiPredict {R : Type} (wire : Wire (MultiPredictRequest (Features Dbl)) (Future (MultiPredictResponse R)))
    (fuel : Nat) (request : MultiPredictRequest (Features Dbl)) :
    Option (Called (Bool × Option (MultiPredictResponseFuture R))) :=
  (rpc retry wire fuel (thriftCall request.requestOption request)).map (·.map fun
    | none => (false, none)
    | some fut =>
      (true, some
        { fut
          reqId := request.reqId
          serviceName := request.requestOption.predictorServiceName
          requestType := getRequestType request.singleRequest.context
          modelNames := request.modelNames
          channel := request.singleRequest.channel }))

/-- `MultiPredictResponseFutureImpl::get`: a response without models loses its id. -/
def MultiPredictResponseFuture.get {R : Type} (f : MultiPredictResponseFuture R) : MultiPredictResponse R :=
  match f.fut with
  | .error _ => {}
  | .ok response => if response.modelResponses.isEmpty then {} else response

/-- `calculate_vector` sends no request option: the interface's defaults go out. -/
def vectorCall (clientRequestList : List (CalculateVectorClientRequest Dbl)) (option : PredictorClientOption) :
    RpcCall (CalculateVectorRequests (Features Dbl)) where
  option := makeClientCallOption option
  requestTimeout := option.requestTimeout
  request := { reqs := clientRequestList.map (·.toCalculateVectorRequest) }

def calculateVector (wire : Wire (CalculateVectorRequests (Features Dbl)) (CalculateVectorResponses V)) (fuel : Nat)
    (clientResponseList : Option (List (VectorClientResponse (ExtTreeMap String V))))
    (clientRequestList : List (CalculateVectorClientRequest Dbl)) (option : PredictorClientOption) :
    Option (Called (Bool × Option (List (VectorClientResponse (ExtTreeMap String V))))) :=
  (rpc retry wire fuel (vectorCall clientRequestList option)).map (·.map fun
    | none => (false, clientResponseList)
    | some responses =>
      (true,
        if responses.resps.isEmpty then clientResponseList
        else clientResponseList.map fun l => l ++ responses.resps.map packVectorResponse))

def batchVectorCall (clientRequestList : List (CalculateBatchVectorClientRequest Dbl))
    (option : PredictorClientOption) : RpcCall (CalculateBatchVectorRequests (Features Dbl)) where
  option := makeClientCallOption option
  requestTimeout := option.requestTimeout
  request := { reqs := clientRequestList.map (·.toCalculateBatchVectorRequest) }

def calculateBatchVector
    (wire : Wire (CalculateBatchVectorRequests (Features Dbl)) (CalculateBatchVectorResponses V)) (fuel : Nat)
    (clientResponseList : Option (List (VectorClientResponse (ExtTreeMap Int64 (ExtTreeMap String V)))))
    (clientRequestList : List (CalculateBatchVectorClientRequest Dbl)) (option : PredictorClientOption) :
    Option (Called (Bool × Option (List (VectorClientResponse (ExtTreeMap Int64 (ExtTreeMap String V)))))) :=
  (rpc retry wire fuel (batchVectorCall clientRequestList option)).map (·.map fun
    | none => (false, clientResponseList)
    | some responses =>
      (true,
        if responses.resps.isEmpty then clientResponseList
        else clientResponseList.map fun l => l ++ responses.resps.map packBatchVectorResponse))

end PredictorService.Sdk
