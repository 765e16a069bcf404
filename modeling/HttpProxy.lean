import HttpProxy.Notify.Notice
import HttpProxy.Notify.Lookups
import HttpProxy.Notify.Context
import HttpProxy.Stream.Conserve
import HttpProxy.Stream.Chunked
import HttpProxy.Stream.Response
import HttpProxy.Stream.PassThrough
import HttpProxy.Stream.Pipeline
import HttpProxy.Stream.Bounded
import HttpProxy.Stream.Tunnel
import HttpProxy.Stream.Responses
import HttpProxy.Stream.Segments
import HttpProxy.Parse.FieldName
import HttpProxy.Parse.Target
import HttpProxy.Parse.Recover
import HttpProxy.Parse.Queued
import HttpProxy.Parse.Forwarded
import HttpProxy.Parse.Arg
import HttpProxy.Queue.Forward
import HttpProxy.Queue.Pool
import HttpProxy.Queue.Counts
import HttpProxy.Queue.Logged
import HttpProxy.Queue.Route
import HttpProxy.Queue.Tunnel
import HttpProxy.Queue.Exiting
import HttpProxy.Queue.Order
import HttpProxy.Queue.Ending
import HttpProxy.Store.Strbuf
import HttpProxy.Store.NetData
import HttpProxy.Store.FreePool
import HttpProxy.Store.PullTable
import HttpProxy.Store.EventTable
import HttpProxy.Dispatch.EventQueue
import HttpProxy.Dispatch.OneShot
import HttpProxy.Dispatch.Instance
import HttpProxy.Dispatch.Registration
import HttpProxy.Dispatch.Connect
import HttpProxy.Dispatch.Served
import HttpProxy.Dispatch.Startup
