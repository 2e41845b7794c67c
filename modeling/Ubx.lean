import Ubx.Base.Machine
import Ubx.Json.Jansson
import Ubx.Json.Stripped
import Ubx.LifeCycle.Actors
import Ubx.LifeCycle.Blocks
import Ubx.LifeCycle.Hooks
import Ubx.LifeCycle.Ledger
import Ubx.PPWorker.Liveness
import Ubx.PPWorker.Protocol
import Ubx.PPWorker.Rate
import Ubx.PPWorker.Schedule
import Ubx.SendMsg.Decoders
import Ubx.SendMsg.Envelopes
import Ubx.SendMsg.Launch
import Ubx.SendMsg.Losses
import Ubx.SendMsg.Results
import Ubx.SendMsg.Session
import Ubx.Transfer.Blocks
import Ubx.Zmq.Clients
import Ubx.Zmq.Pairing
import Ubx.Zmq.Pipeline
import Ubx.Zmq.Replies
import Ubx.Zyre.Balance
import Ubx.Zyre.Buffer
import Ubx.Zyre.Fifo
import Ubx.Zyre.LifeCycle
import Ubx.Zyre.Losses
import Ubx.Zyre.Mediator
import Ubx.Zyre.Convergence
import Ubx.Zyre.Peers
import Ubx.Zyre.Robust
import Ubx.Zyre.TypeTest
